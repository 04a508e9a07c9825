import LumaBroker.Go.Strings

/-!
The part of pkg/config/config.go that the modelled code runs on: what Load takes from the
environment and its defaults, and what Validate asks of the result. The number syntax of
strconv and time is a parameter. Durations are in nanoseconds.
-/

namespace LumaBroker.Settings

structure BrokerConfig where
  maxConnections : Int
  maxPacketSize : Int
  topicAliasMax : Int
  serverReceiveMaximum : Int
  serverMaximumQoS : Int
  retainAvailable : Bool
  wildcardSubscriptionAvailable : Bool
  subscriptionIdentifierAvailable : Bool
  sharedSubscriptionAvailable : Bool
  deriving DecidableEq

structure ClusterConfig where
  enabled : Bool
  brokerID : GoString
  partitionCount : Int
  partitionReplica : Int
  partitionSyncInterval : Int
  brokerHeartbeatInterval : Int
  brokerStaleAfter : Int
  deriving DecidableEq

structure Config where
  broker : BrokerConfig
  jwtSecret : GoString
  cluster : ClusterConfig
  deriving DecidableEq

namespace Config

/-- The functions strconv.Atoi, strconv.ParseBool and time.ParseDuration. -/
structure NumberSyntax where
  atoi : GoString → Option Int
  parseBool : GoString → Option Bool
  parseDuration : GoString → Option Int

/-- The answers of os.LookupEnv. -/
abbrev Environment := String → Option GoString

def env (e : Environment) (key : String) (default : GoString) : GoString :=
  match e key with
  | some v => if v ≠ [] then v else default
  | none => default

/-- A variable that cannot be parsed counts as unset. -/
def envParsed {α : Type} (parse : GoString → Option α) (e : Environment) (key : String)
    (default : α) : α :=
  ((e key).bind parse).getD default

def second : Int := 1000000000

def load (s : NumberSyntax) (e : Environment) : Config where
  broker :=
    { maxConnections := envParsed s.atoi e "MAX_CONNECTIONS" 50000
      maxPacketSize := envParsed s.atoi e "MAX_PACKET_SIZE" (10 * 1024 * 1024)
      topicAliasMax := envParsed s.atoi e "MQTT_TOPIC_ALIAS_MAX" 64
      serverReceiveMaximum := envParsed s.atoi e "MQTT_SERVER_RECEIVE_MAXIMUM" 65535
      serverMaximumQoS := envParsed s.atoi e "MQTT_SERVER_MAXIMUM_QOS" 2
      retainAvailable := envParsed s.parseBool e "MQTT_RETAIN_AVAILABLE" true
      wildcardSubscriptionAvailable := envParsed s.parseBool e "MQTT_WILDCARD_SUB_AVAILABLE" true
      subscriptionIdentifierAvailable :=
        envParsed s.parseBool e "MQTT_SUBSCRIPTION_ID_AVAILABLE" true
      sharedSubscriptionAvailable := envParsed s.parseBool e "MQTT_SHARED_SUB_AVAILABLE" true }
  jwtSecret := env e "JWT_SECRET" (str "luma-change-in-production-32bytes")
  cluster :=
    { enabled := envParsed s.parseBool e "CLUSTER_MODE" false
      brokerID := env e "BROKER_ID" []
      partitionCount := envParsed s.atoi e "CLUSTER_PARTITIONS" 128
      partitionReplica := envParsed s.atoi e "CLUSTER_REPLICAS" 3
      partitionSyncInterval :=
        envParsed s.parseDuration e "CLUSTER_PARTITION_SYNC_INTERVAL" (10 * second)
      brokerHeartbeatInterval :=
        envParsed s.parseDuration e "CLUSTER_BROKER_HEARTBEAT_INTERVAL" (5 * second)
      brokerStaleAfter := envParsed s.parseDuration e "CLUSTER_BROKER_STALE_AFTER" (30 * second) }

/-- The text of the first check that fails. -/
def validate (c : Config) : Option String :=
  if c.jwtSecret.length < 16 then some "JWT_SECRET must be at least 16 characters"
  else if c.broker.maxConnections ≤ 0 then some "MAX_CONNECTIONS must be positive"
  else if c.cluster.partitionCount ≤ 0 then some "CLUSTER_PARTITIONS must be positive"
  else if c.cluster.partitionReplica ≤ 0 then some "CLUSTER_REPLICAS must be positive"
  else if c.cluster.partitionSyncInterval ≤ 0 then
    some "CLUSTER_PARTITION_SYNC_INTERVAL must be positive"
  else if c.cluster.brokerHeartbeatInterval ≤ 0 then
    some "CLUSTER_BROKER_HEARTBEAT_INTERVAL must be positive"
  else if c.cluster.brokerStaleAfter ≤ 0 then some "CLUSTER_BROKER_STALE_AFTER must be positive"
  else if c.cluster.brokerStaleAfter < 2 * c.cluster.brokerHeartbeatInterval then
    some "CLUSTER_BROKER_STALE_AFTER must be at least 2× CLUSTER_BROKER_HEARTBEAT_INTERVAL"
  else if c.broker.maxPacketSize < 128 then some "MAX_PACKET_SIZE too small"
  else if c.broker.topicAliasMax < 0 ∨ c.broker.topicAliasMax > 65535 then
    some "MQTT_TOPIC_ALIAS_MAX must be between 0 and 65535"
  else if c.broker.serverMaximumQoS < 0 ∨ c.broker.serverMaximumQoS > 2 then
    some "MQTT_SERVER_MAXIMUM_QOS must be between 0 and 2"
  else if c.broker.serverReceiveMaximum ≠ 0 ∧
      (c.broker.serverReceiveMaximum < 1 ∨ c.broker.serverReceiveMaximum > 65535) then
    some "MQTT_SERVER_RECEIVE_MAXIMUM must be 0 (omit) or 1..65535"
  else none

/-- What a validated configuration is known to satisfy. -/
structure Valid (c : Config) : Prop where
  jwtSecret : 16 ≤ c.jwtSecret.length
  maxConnections : 0 < c.broker.maxConnections
  partitionCount : 0 < c.cluster.partitionCount
  partitionReplica : 0 < c.cluster.partitionReplica
  partitionSyncInterval : 0 < c.cluster.partitionSyncInterval
  brokerHeartbeatInterval : 0 < c.cluster.brokerHeartbeatInterval
  brokerStaleAfter : 2 * c.cluster.brokerHeartbeatInterval ≤ c.cluster.brokerStaleAfter
  maxPacketSize : 128 ≤ c.broker.maxPacketSize
  topicAliasMax : 0 ≤ c.broker.topicAliasMax ∧ c.broker.topicAliasMax ≤ 65535
  serverMaximumQoS : 0 ≤ c.broker.serverMaximumQoS ∧ c.broker.serverMaximumQoS ≤ 2
  serverReceiveMaximum : 0 ≤ c.broker.serverReceiveMaximum ∧ c.broker.serverReceiveMaximum ≤ 65535

theorem check_eq_none {fails : Prop} [Decidable fails] {err : String} {rest : Option String} :
    (if fails then some err else rest) = none ↔ ¬ fails ∧ rest = none := by
  by_cases h : fails <;> simp [h]

theorem validate_eq_none {c : Config} : c.validate = none ↔ c.Valid := by
  simp only [validate, check_eq_none, and_true]
  constructor
  · intro h
    constructor <;> omega
  · rintro ⟨hsecret, hconns, hcount, hreplica, hsync, hheartbeat, hstale, hsize, halias,
      hqos, hreceive⟩
    omega

/-- An empty environment is enough to start the broker. -/
theorem valid_load_empty (s : NumberSyntax) : (load s fun _ => none).Valid :=
  validate_eq_none.mp rfl

end Config
end LumaBroker.Settings
