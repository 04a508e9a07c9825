import LumaBroker.Auth.Authenticator
import LumaBroker.Broker.Deliver
import LumaBroker.Broker.Publish
import LumaBroker.Lib.Transition
import LumaBroker.Protocol.Decode
import LumaBroker.Router.Router

/-!
handleConnect and cleanup of internal/broker/client.go on the state of the whole broker,
from the bytes of the CONNECT on. A refused CONNECT ends the connection, and the cleanup
that follows undoes what an accepted one would have done as soon as the connection has
taken a client ID.
-/

namespace LumaBroker.Broker

open Auth Session

/-- One connection. The certificate is the first one of the peer on a TLS connection. -/
structure Client where
  conn : Conn
  username : GoString
  sess : Option Ptr
  remoteAddr : GoString
  cert : Option Certificate
  socketOpen : Bool

/-- The broker. A client is known by its number, which stands for the pointer, and so is
the Deliver closure of its subscriptions. -/
structure BrokerState where
  authn : Authenticator
  conns : Nat → Client
  clients : FinMap GoString Nat
  sessions : Store
  router : Router Nat
  activeConnections : Int
  activeSessions : Int

/-- What handleConnect meets besides the CONNECT: the libraries, the time in nanoseconds,
the configured alias limit and the plugin chain, with the text of its error. -/
structure HandshakeEnv where
  jwt : Jwt
  bcrypt : Bcrypt
  now : Nat
  place : Nat
  topicAliasMax : UInt16
  onClientConnect : GoString → GoString → Option String

inductive ConnectError where
  | decode (err : Protocol.DecodeError)
  | auth (err : AuthError)
  | invalidClientID
  | plugin (err : String)
  deriving DecidableEq

/-- The CONNACK of sendConnackFailure. -/
structure Refusal where
  v5 : Bool
  code : UInt8
  deriving DecidableEq

/-- How far handleConnect comes before it takes over: to an ID that the plugins let in. -/
inductive Admission where
  | admitted (cid : GoString) (pkt : Protocol.ConnectPacket) (b : BrokerState)
  | refused (err : ConnectError) (connack : Refusal) (b : BrokerState)
  | panicked

inductive ConnectResult where
  | accepted (sessionPresent : Bool) (b : BrokerState)
  | refused (err : ConnectError) (connack : Refusal) (b : BrokerState)
  | panicked

def connRefusedProtocol : UInt8 := 0x01

def connRefusedIDRejected : UInt8 := 0x02

def connRefusedBadCredentials : UInt8 := 0x04

def connRefusedNotAuthorized : UInt8 := 0x05

def connackReasonV5ClientIDNotValid : UInt8 := 0x85

def connackReasonV5BadUsernameOrPassword : UInt8 := 0x86

/-- errors.Is, through the wrapped errors. -/
def errorIs (target : Protocol.DecodeError) : Protocol.DecodeError → Bool
  | .wrap context err => Protocol.DecodeError.wrap context err = target || errorIs target err
  | err => err = target

def connackReasonV5ForDecodeError (err : Protocol.DecodeError) : UInt8 :=
  if errorIs .unsupportedVersion err then 0x84
  else if errorIs .protocolViolation err then 0x82
  else 0x81

/-- The body is looked at when the connection does not know its version yet. -/
def sendConnackFailure (reasonV311 reasonV5 : UInt8) (peekBody : List UInt8)
    (version : UInt8) : Refusal :=
  let useV5 := decide (version = Protocol.v50)
  let useV5 := useV5 || match Protocol.peekConnectProtocolLevel peekBody with
    | .ok v _ => peekBody.length > 0 && decide (v = Protocol.v50)
    | _ => false
  ⟨useV5, if useV5 then reasonV5 else reasonV311⟩

/-- The packet of a CONNECT that can be decoded. -/
def decodedConnect (body : List UInt8) : Option Protocol.ConnectPacket :=
  match Protocol.decodeConnect body with
  | .ok pkt _ => some pkt
  | _ => none

theorem decodedConnect_eq_some {body : List UInt8} {pkt : Protocol.ConnectPacket} :
    decodedConnect body = some pkt ↔ ∃ t, Protocol.decodeConnect body = .ok pkt t := by
  unfold decodedConnect
  cases Protocol.decodeConnect body <;> simp

/-- The outcome of the authentication part: the name of the connection changes as far as
it got. -/
structure AuthResult where
  error : Option AuthError
  username : GoString
  authn : Authenticator

/-- The name that a client certificate gives, or the one the connection has. -/
def certIdentity (cert : Option Certificate) (username : GoString) (a : Authenticator) :
    Except AuthError GoString :=
  match cert with
  | none => .ok username
  | some cert => a.authX509 cert

def authenticate (env : HandshakeEnv) (pkt : Protocol.ConnectPacket) (cert : Option Certificate)
    (username : GoString) (a : Authenticator) : AuthResult :=
  match certIdentity cert username a with
  | .error err => ⟨some err, username, a⟩
  | .ok username =>
      if username = [] ∧ pkt.hasUsername then
        match a.authPassword env.bcrypt pkt.username pkt.password with
        | .error err => ⟨some err, username, a⟩
        | .ok () => ⟨none, pkt.username, a⟩
      else if pkt.password.length > 0 then
        match a.authJWT env.jwt (env.now / 1000000000) env.place pkt.password with
        | (.error err, a) => ⟨some err, username, a⟩
        | (.ok claims, a) => ⟨none, claims.username, a⟩
      else ⟨none, username, a⟩

/-- The client ID of a CONNECT, none when it is rejected. -/
def connectID (now : Nat) (remoteAddr : GoString) (pkt : Protocol.ConnectPacket) :
    Option GoString :=
  if pkt.clientID = [] then
    if !pkt.cleanSession then none
    else some (str "auto-" ++ remoteAddr ++ str "-" ++ str (toString now))
  else some pkt.clientID

/-- The fields that the session part of handleConnect reads. -/
def sessionPart (pkt : Protocol.ConnectPacket) : ConnectPacket where
  version := pkt.version
  cleanSession := pkt.cleanSession
  keepAlive := pkt.keepAlive
  sessionExpiryInterval := pkt.sessionExpiryInterval
  receiveMaximum := pkt.receiveMaximum
  maximumPacketSize := pkt.maximumPacketSize
  topicAliasMaximum := pkt.topicAliasMaximum
  will := if pkt.willFlag then some (connectWill pkt) else none

namespace BrokerState

def setClient (i : Nat) (c : Client) (b : BrokerState) : BrokerState :=
  { b with conns := Function.update b.conns i c }

/-- A method call on the session behind a pointer. -/
def modifySession (p : Ptr) (f : Session → Session) (b : BrokerState) : BrokerState :=
  { b with sessions := b.sessions.modify p f }

def register (i : Nat) (cid : GoString) (b : BrokerState) : BrokerState :=
  { b with clients := b.clients.set cid i }

def unregister (cid : GoString) (b : BrokerState) : BrokerState :=
  { b with clients := b.clients.erase cid }

/-- None is the nil dereference for a client that is registered without a session. -/
def takeover (cid : GoString) (b : BrokerState) : Option BrokerState :=
  match b.clients.get cid with
  | none => some b
  | some i =>
      (b.conns i).sess.map fun p =>
        (b.modifySession p Session.clearWill).setClient i { b.conns i with socketOpen := false }

/-- The connection at the end of handleConnect; its topic aliases stay. -/
def connected (env : HandshakeEnv) (cid : GoString) (pkt : Protocol.ConnectPacket) (present : Bool)
    (c : Conn) : Conn :=
  Conn.enqueue (.connack pkt.version present)
    { c with
      clientID := cid
      version := pkt.version
      state := .connected
      peerRecvMax := (sessionPart pkt).peerRecvMax
      peerMaxPacketSize := (sessionPart pkt).peerMaxPacketSize
      negotiatedTopicAliasMax := (sessionPart pkt).negotiatedTopicAliasMax env.topicAliasMax }

/-- handleConnect from takeover on, for client i. -/
def accept (env : HandshakeEnv) (i : Nat) (cid : GoString) (pkt : Protocol.ConnectPacket)
    (b : BrokerState) : ConnectResult :=
  match b.takeover cid with
  | none => .panicked
  | some b =>
      let (sessions, p, present) := b.sessions.getOrCreate cid pkt.cleanSession env.now
      let c := b.conns i
      let b :=
        { b with sessions := sessions }.modifySession p ((sessionPart pkt).connectSession env.now)
      let b := b.setClient i { c with sess := some p, conn := connected env cid pkt present c.conn }
      let b := b.register i cid
      .accepted present { b with
        activeConnections := b.activeConnections + 1
        activeSessions := b.activeSessions + 1 }

/-- The first part of handleConnect, up to the plugins. -/
def admission (env : HandshakeEnv) (i : Nat) (body : List UInt8) (b : BrokerState) : Admission :=
  match Protocol.decodeConnect body with
  | .panic | .timeout => .panicked
  | .error err =>
      .refused (.decode err)
        (sendConnackFailure connRefusedProtocol (connackReasonV5ForDecodeError err) body
          (b.conns i).conn.version) b
  | .ok pkt _ =>
      let c := b.conns i
      let conn := { c.conn with version := pkt.version }
      let auth := authenticate env pkt c.cert c.username b.authn
      let c := { c with conn := conn, username := auth.username }
      let b := { b with authn := auth.authn }.setClient i c
      match auth.error with
      | some err =>
          .refused (.auth err) (sendConnackFailure connRefusedBadCredentials
            connackReasonV5BadUsernameOrPassword [] pkt.version) b
      | none =>
          match connectID env.now c.remoteAddr pkt with
          | none =>
              .refused .invalidClientID
                (sendConnackFailure connRefusedIDRejected connackReasonV5ClientIDNotValid []
                  pkt.version) b
          | some cid =>
              let b := b.setClient i { c with conn := { conn with clientID := cid } }
              match env.onClientConnect cid c.username with
              | some err =>
                  .refused (.plugin err)
                    (sendConnackFailure connRefusedNotAuthorized Protocol.reasonNotAuthorized []
                      pkt.version) b
              | none => .admitted cid pkt b

def handleConnect (env : HandshakeEnv) (i : Nat) (body : List UInt8) (b : BrokerState) :
    ConnectResult :=
  match b.admission env i body with
  | .admitted cid pkt b => b.accept env i cid pkt
  | .refused err connack b => .refused err connack b
  | .panicked => .panicked

/-- A call of a Deliver closure, on the connection and the session the client has at that
time; none when the closure does not return. A client that is subscribed has a session. -/
def runDelivery (now : Nat) (b : BrokerState) (d : Router.Delivery Nat) : Option BrokerState :=
  let c := b.conns d.deliver
  match c.sess with
  | none => some b
  | some p =>
      (deliver now ⟨d.topic, d.payload, d.qos, d.retain⟩ c.conn (b.sessions.heap p)).map fun r =>
        (b.modifySession p fun _ => r.sess).setClient d.deliver { c with conn := r.conn }

/-- Router.Publish with the closures it calls. -/
def routerPublish (now : Nat) (call : PublishCall) (b : BrokerState) : Option BrokerState :=
  let r := b.router.publish call.topic call.payload call.qos call.retain now
  Transition.run (runDelivery now) r.deliveries { b with router := r.router }

/-- Calls of Router.Publish, one after the other. -/
def routeAll (now : Nat) (calls : List PublishCall) (b : BrokerState) : Option BrokerState :=
  Transition.run (fun b call => b.routerPublish now call) calls b

/-- UnsubscribeAll and sessions.Delete, for a clean session and in PurgePersistentSession. -/
def endSession (cid : GoString) (b : BrokerState) : BrokerState :=
  { b with
    router := b.router.unsubscribeAll cid
    sessions := b.sessions.delete cid
    activeSessions := b.activeSessions - 1 }

def closeClient (i : Nat) (b : BrokerState) : BrokerState :=
  let c := b.conns i
  b.setClient i { c with socketOpen := false, conn := { c.conn with state := .closed } }

/-- The part of cleanup for the session, up to the will. -/
def disconnect (now : Nat) (cid : GoString) (p : Ptr) (b : BrokerState) : BrokerState :=
  let b := b.modifySession p (Session.setConnected false now)
  if (b.sessions.heap p).cleanSession then b.endSession cid
  else
    let purge := ((b.sessions.heap p).prepareDisconnectExpiry now).2
    let b := b.modifySession p fun s => (s.prepareDisconnectExpiry now).1
    if purge then b.endSession cid else b

/-- None when a closure called for the will does not return. -/
def cleanup (now : Nat) (i : Nat) (b : BrokerState) : Option BrokerState :=
  let b := b.closeClient i
  let cid := (b.conns i).conn.clientID
  if cid = [] then some b
  else
    let b := b.unregister cid
    let b := match (b.conns i).sess with
      | none => some b
      | some p =>
          let b := b.disconnect now cid p
          b.routeAll now (willCalls (b.sessions.heap p))
    b.map fun b => { b with activeConnections := b.activeConnections - 1 }

/-- The broker when handleConnect has returned. -/
def after : ConnectResult → Option BrokerState
  | .accepted _ b => some b
  | .refused _ _ b => some b
  | .panicked => none

/-- What a refused CONNECT should leave alone. -/
structure Shared where
  clients : FinMap GoString Nat
  sessions : Store
  router : Router Nat
  activeConnections : Int
  activeSessions : Int

def shared (b : BrokerState) : Shared :=
  ⟨b.clients, b.sessions, b.router, b.activeConnections, b.activeSessions⟩

/-- The CONNECT is refused before the connection takes a client ID: it cannot be decoded,
its credentials are not accepted, or it leaves the ID empty for a persistent session. -/
def TakesNoID (env : HandshakeEnv) (i : Nat) (body : List UInt8) (b : BrokerState) : Prop :=
  ∀ pkt t, Protocol.decodeConnect body = .ok pkt t →
    (authenticate env pkt (b.conns i).cert (b.conns i).username b.authn).error ≠ none ∨
      pkt.clientID = [] ∧ pkt.cleanSession = false

section Refused
variable {env : HandshakeEnv} {i : Nat} {body : List UInt8} {b : BrokerState}

theorem conns_setClient_self (i : Nat) (c : Client) (b : BrokerState) :
    (b.setClient i c).conns i = c :=
  Function.update_self ..

theorem conns_setClient_of_ne {i j : Nat} (c : Client) (b : BrokerState) (h : j ≠ i) :
    (b.setClient i c).conns j = b.conns j :=
  Function.update_of_ne h ..

theorem connectID_ne_nil {now : Nat} {remoteAddr cid : GoString} {pkt : Protocol.ConnectPacket}
    (h : connectID now remoteAddr pkt = some cid) : cid ≠ [] := by
  rw [connectID] at h
  split at h
  · split at h
    · cases h
    · cases h
      exact List.cons_ne_nil _ _
  · next hne =>
      cases h
      exact hne

theorem connectID_eq_none {now : Nat} {remoteAddr : GoString} {pkt : Protocol.ConnectPacket} :
    connectID now remoteAddr pkt = none ↔ pkt.clientID = [] ∧ pkt.cleanSession = false := by
  rw [connectID]
  split
  · next hempty => cases pkt.cleanSession <;> simp [hempty]
  · next hne => simp [hne]

theorem authenticate_authn (env : HandshakeEnv) (pkt : Protocol.ConnectPacket)
    (cert : Option Certificate) (username : GoString) (a : Authenticator) :
    (authenticate env pkt cert username a).authn = a ∨
      ∃ now place tok, (authenticate env pkt cert username a).authn =
        (a.authJWT env.jwt now place tok).2 := by
  rw [authenticate]
  split
  · exact .inl rfl
  · split
    · split <;> exact .inl rfl
    · split
      · split <;> next hjwt => exact .inr ⟨_, _, _, by rw [hjwt]⟩
      · exact .inl rfl

theorem authenticate_password {pkt : Protocol.ConnectPacket} {a : Authenticator} {err : AuthError}
    (hname : pkt.hasUsername = true)
    (hpassword : a.authPassword env.bcrypt pkt.username pkt.password = .error err) :
    (authenticate env pkt none [] a).error = some err := by
  simp [authenticate, certIdentity, hname, hpassword]

/-- The first part of handleConnect changes the cache of the Authenticator and the connection
at most, and leaves that its session and its aliases. -/
structure Touched (env : HandshakeEnv) (i : Nat) (b b' : BrokerState) : Prop where
  shared : b'.shared = b.shared
  authn : b'.authn = b.authn ∨ ∃ now place tok, b'.authn = (b.authn.authJWT env.jwt now place tok).2
  others : ∀ j, j ≠ i → b'.conns j = b.conns j
  sess : (b'.conns i).sess = (b.conns i).sess
  topicAliases : (b'.conns i).conn.topicAliases = (b.conns i).conn.topicAliases

theorem Touched.refl (env : HandshakeEnv) (i : Nat) (b : BrokerState) : Touched env i b b :=
  ⟨rfl, .inl rfl, fun _ _ => rfl, rfl, rfl⟩

theorem Touched.setClient {b' : BrokerState} (h : Touched env i b b') {c : Client}
    (hsess : c.sess = (b.conns i).sess)
    (halias : c.conn.topicAliases = (b.conns i).conn.topicAliases) :
    Touched env i b (b'.setClient i c) where
  shared := h.shared
  authn := h.authn
  others j hj := (conns_setClient_of_ne c b' hj).trans (h.others j hj)
  sess := by rw [conns_setClient_self, hsess]
  topicAliases := by rw [conns_setClient_self, halias]

theorem touched_authenticate (env : HandshakeEnv) (i : Nat) (b : BrokerState)
    (pkt : Protocol.ConnectPacket) :
    Touched env i b
      { b with authn := (authenticate env pkt (b.conns i).cert (b.conns i).username
        b.authn).authn } :=
  ⟨rfl, authenticate_authn .., fun _ _ => rfl, rfl, rfl⟩

theorem takesNoID_iff (env : HandshakeEnv) (i : Nat) (b : BrokerState)
    {pkt : Protocol.ConnectPacket} {t : Protocol.SliceReader}
    (hdecode : Protocol.decodeConnect body = .ok pkt t) :
    TakesNoID env i body b ↔
      (authenticate env pkt (b.conns i).cert (b.conns i).username b.authn).error ≠ none ∨
        pkt.clientID = [] ∧ pkt.cleanSession = false := by
  constructor
  · intro h
    exact h pkt t hdecode
  · intro h pkt' t' hok
    rw [hdecode] at hok
    cases hok
    exact h

/-- Whether a refused connection has taken an ID is decided by how far the CONNECT got. -/
theorem admission_refused {err : ConnectError} {connack : Refusal} {b' : BrokerState}
    (h : b.admission env i body = .refused err connack b') :
    Touched env i b b' ∧
      (TakesNoID env i body b ∧ (b'.conns i).conn.clientID = (b.conns i).conn.clientID ∨
        ¬ TakesNoID env i body b ∧ (b'.conns i).conn.clientID ≠ []) := by
  unfold admission at h
  split at h
  · cases h
  · cases h
  · next hdecode =>
      cases h
      refine ⟨Touched.refl env i b, .inl ⟨?_, rfl⟩⟩
      intro pkt t hok
      rw [hdecode] at hok
      cases hok
  · next pkt t hdecode =>
      have hauthenticated := touched_authenticate env i b pkt
      have htakes := takesNoID_iff env i b hdecode
      dsimp only at h
      split at h
      · next hauth =>
          cases h
          refine ⟨hauthenticated.setClient (by rfl) (by rfl),
            .inl ⟨htakes.mpr (.inl (by simp [hauth])), ?_⟩⟩
          rw [conns_setClient_self]
      · next hauth =>
          split at h
          · next hid =>
              cases h
              have hnone := htakes.mpr (.inr (connectID_eq_none.mp hid))
              refine ⟨hauthenticated.setClient (by rfl) (by rfl), .inl ⟨hnone, ?_⟩⟩
              rw [conns_setClient_self]
          · next cid hid =>
              split at h
              · cases h
                refine ⟨(hauthenticated.setClient (by rfl) (by rfl)).setClient (by rfl) (by rfl),
                  .inr ⟨?_, ?_⟩⟩
                · rw [htakes]
                  rintro (herror | hempty)
                  · exact herror hauth
                  · rw [connectID_eq_none.mpr hempty] at hid
                    cases hid
                · rw [conns_setClient_self]
                  exact connectID_ne_nil hid
              · cases h

theorem admission_admitted {cid : GoString} {pkt : Protocol.ConnectPacket} {b' : BrokerState}
    (h : b.admission env i body = .admitted cid pkt b') :
    Touched env i b b' ∧ decodedConnect body = some pkt ∧
      connectID env.now (b.conns i).remoteAddr pkt = some cid := by
  unfold admission at h
  split at h
  · cases h
  · cases h
  · cases h
  · next pkt' t hdecode =>
      have hauthenticated := touched_authenticate env i b pkt'
      dsimp only at h
      split at h
      · cases h
      · split at h
        · cases h
        · next cid' hid =>
            split at h
            · cases h
            · cases h
              exact ⟨(hauthenticated.setClient (by rfl) (by rfl)).setClient (by rfl) (by rfl),
                decodedConnect_eq_some.mpr ⟨t, hdecode⟩, hid⟩

/-- The rest of handleConnect has no way to refuse. -/
theorem handleConnect_refused {err : ConnectError} {connack : Refusal} {b' : BrokerState}
    (h : b.handleConnect env i body = .refused err connack b') :
    b.admission env i body = .refused err connack b' := by
  unfold handleConnect at h
  split at h
  · rw [accept] at h
    split at h <;> cases h
  · next hadmit =>
      cases h
      exact hadmit
  · cases h

theorem handleConnect_accepted {present : Bool} {b' : BrokerState}
    (h : b.handleConnect env i body = .accepted present b') :
    ∃ cid pkt u, b.admission env i body = .admitted cid pkt u ∧
      u.accept env i cid pkt = .accepted present b' := by
  unfold handleConnect at h
  split at h
  · next cid pkt u hadmit => exact ⟨cid, pkt, u, hadmit, h⟩
  · cases h
  · cases h

theorem handleConnect_of_auth_error {pkt : Protocol.ConnectPacket} {t : Protocol.SliceReader}
    {err : AuthError} (hdecode : Protocol.decodeConnect body = .ok pkt t)
    (hauth : (authenticate env pkt (b.conns i).cert (b.conns i).username b.authn).error =
      some err) :
    ∃ connack b', b.handleConnect env i body = .refused (.auth err) connack b' := by
  unfold handleConnect admission
  rw [hdecode]
  dsimp only
  rw [hauth]
  exact ⟨_, _, rfl⟩

theorem takeover_cases {cid : GoString} {b' : BrokerState} (h : b.takeover cid = some b') :
    b' = b ∨ ∃ j p, b' = (b.modifySession p Session.clearWill).setClient
      j { b.conns j with socketOpen := false } := by
  rw [takeover] at h
  split at h
  · cases h
    exact .inl rfl
  · next j _ =>
      obtain ⟨p, -, rfl⟩ := Option.map_eq_some_iff.mp h
      exact .inr ⟨j, p, rfl⟩

/-- What a call of the closure can do. -/
theorem runDelivery_cases {now : Nat} {d : Router.Delivery Nat} {b' : BrokerState}
    (h : runDelivery now b d = some b') :
    b' = b ∨ ∃ p r,
      deliver now ⟨d.topic, d.payload, d.qos, d.retain⟩ (b.conns d.deliver).conn
        (b.sessions.heap p) = some r ∧
        b' = (b.modifySession p fun _ => r.sess).setClient
          d.deliver { b.conns d.deliver with conn := r.conn } := by
  rw [runDelivery] at h
  split at h
  · cases h
    exact .inl rfl
  · next p _ =>
      obtain ⟨r, hr, rfl⟩ := Option.map_eq_some_iff.mp h
      exact .inr ⟨p, r, hr, rfl⟩

theorem authn_takeover {cid : GoString} {b' : BrokerState} (h : b.takeover cid = some b') :
    b'.authn = b.authn := by
  rcases takeover_cases h with rfl | ⟨j, p, rfl⟩ <;> rfl

theorem activeConnections_runDelivery {now : Nat} {d : Router.Delivery Nat} {b' : BrokerState}
    (h : runDelivery now b d = some b') : b'.activeConnections = b.activeConnections := by
  rcases runDelivery_cases h with rfl | ⟨p, r, -, rfl⟩ <;> rfl

/-- Calls of Router.Publish preserve what its closures preserve and what does not look at
the router. -/
theorem routeAll_preserves {I : BrokerState → Prop} {now : Nat}
    (hrouter : ∀ b router, I b → I { b with router := router })
    (hdelivery : ∀ b d b', I b → runDelivery now b d = some b' → I b') {calls : List PublishCall}
    {b' : BrokerState} (hb : I b) (h : b.routeAll now calls = some b') : I b' := by
  have hpublish (b : BrokerState) (call : PublishCall) (b' : BrokerState) (hb : I b)
      (hrun : b.routerPublish now call = some b') : I b' :=
    Transition.preserved_run hdelivery (hrouter b _ hb) hrun
  exact Transition.preserved_run hpublish hb h

theorem activeConnections_routeAll {now : Nat} {calls : List PublishCall} {b' : BrokerState}
    (h : b.routeAll now calls = some b') : b'.activeConnections = b.activeConnections :=
  routeAll_preserves (I := fun s => s.activeConnections = b.activeConnections) (fun _ _ hs => hs)
    (fun _ _ _ hs hrun => (activeConnections_runDelivery hrun).trans hs) rfl h

theorem activeConnections_disconnect (now : Nat) (cid : GoString) (p : Ptr) (b : BrokerState) :
    (b.disconnect now cid p).activeConnections = b.activeConnections := by
  rw [disconnect]
  dsimp only
  split
  · rfl
  · split <;> rfl

/-- Cleanup closes the connection. With an ID it also takes the ID out of the map, and goes
on to the session and its will. -/
theorem cleanup_cases {now : Nat} {b' : BrokerState} (h : b.cleanup now i = some b') :
    let cid := (b.conns i).conn.clientID
    let gone := (b.closeClient i).unregister cid
    (cid = [] ∧ b' = b.closeClient i) ∨
      cid ≠ [] ∧ ∃ u, b' = { u with activeConnections := u.activeConnections - 1 } ∧
        ((b.conns i).sess = none ∧ u = gone ∨
          ∃ p, (b.conns i).sess = some p ∧
            (gone.disconnect now cid p).routeAll now
              (willCalls ((gone.disconnect now cid p).sessions.heap p)) = some u) := by
  intro cid gone
  have hclosed := conns_setClient_self i
    { b.conns i with socketOpen := false, conn := { (b.conns i).conn with state := .closed } } b
  have hid : ((b.closeClient i).conns i).conn.clientID = cid :=
    (congrArg (fun c => c.conn.clientID) hclosed :)
  have hsess : (gone.conns i).sess = (b.conns i).sess := (congrArg Client.sess hclosed :)
  rw [cleanup] at h
  dsimp only at h
  rw [hid] at h
  split at h
  · next hnil =>
      cases h
      exact .inl ⟨hnil, rfl⟩
  · next hne =>
      obtain ⟨u, hu, rfl⟩ := Option.map_eq_some_iff.mp h
      refine .inr ⟨hne, u, rfl, ?_⟩
      split at hu
      · next hnone =>
          cases hu
          exact .inl ⟨hsess.symm.trans hnone, rfl⟩
      · next p hp => exact .inr ⟨p, hsess.symm.trans hp, hu⟩

theorem shared_cleanup {now : Nat} {b' : BrokerState} (h : b.cleanup now i = some b')
    (hid : (b.conns i).conn.clientID = []) : b'.shared = b.shared := by
  rcases cleanup_cases h with ⟨-, rfl⟩ | ⟨hne, -⟩
  · rfl
  · exact absurd hid hne

theorem activeConnections_cleanup {now : Nat} {b' : BrokerState} (h : b.cleanup now i = some b')
    (hid : (b.conns i).conn.clientID ≠ []) : b'.activeConnections = b.activeConnections - 1 := by
  rcases cleanup_cases h with ⟨hnil, -⟩ | ⟨-, u, rfl, ⟨-, rfl⟩ | ⟨p, -, hu⟩⟩
  · exact absurd hnil hid
  · rfl
  · dsimp only
    rw [activeConnections_routeAll hu, activeConnections_disconnect]
    rfl

theorem names_connected (env : HandshakeEnv) (cid : GoString) (pkt : Protocol.ConnectPacket)
    (present : Bool) (c : Conn) : (connected env cid pkt present c).clientID = cid ∧
      (connected env cid pkt present c).topicAliases = c.topicAliases := by
  rw [connected, Conn.enqueue_eq]
  exact ⟨rfl, rfl⟩

/-- Taking over closes a socket, which the connection itself does not show. -/
theorem conn_takeover {cid : GoString} {b' : BrokerState} (h : b.takeover cid = some b') (j : Nat) :
    (b'.conns j).conn = (b.conns j).conn := by
  rcases takeover_cases h with rfl | ⟨k, p, rfl⟩
  · rfl
  · by_cases hj : j = k
    · rw [hj, conns_setClient_self]
    · rw [conns_setClient_of_ne _ _ hj]
      rfl

theorem conn_accept {cid : GoString} {pkt : Protocol.ConnectPacket} {present : Bool}
    {b' : BrokerState} (h : b.accept env i cid pkt = .accepted present b') :
    (b'.conns i).conn = connected env cid pkt present (b.conns i).conn := by
  rw [accept] at h
  split at h
  · cases h
  · next u htakeover =>
      have hconn := conn_takeover htakeover i
      cases h
      rw [← hconn]
      exact congrArg Client.conn (Function.update_self i _ u.conns)

theorem clientID_accept {cid : GoString} {pkt : Protocol.ConnectPacket} {present : Bool}
    {b' : BrokerState} (h : b.accept env i cid pkt = .accepted present b') :
    (b'.conns i).conn.clientID = cid := by
  rw [conn_accept h]
  exact (names_connected env cid pkt present (b.conns i).conn).1

theorem authn_accept {cid : GoString} {pkt : Protocol.ConnectPacket} {present : Bool}
    {b' : BrokerState} (h : b.accept env i cid pkt = .accepted present b') :
    b'.authn = b.authn := by
  rw [accept] at h
  split at h
  · cases h
  · next htakeover =>
      have hsame := authn_takeover htakeover
      cases h
      exact hsame

theorem authn_handleConnect {b' : BrokerState} (h : after (b.handleConnect env i body) = some b') :
    b'.authn = b.authn ∨ ∃ now place tok, b'.authn = (b.authn.authJWT env.jwt now place tok).2 := by
  cases hresult : b.handleConnect env i body with
  | accepted present u =>
      rw [hresult] at h
      cases h
      obtain ⟨cid, pkt, u, hadmit, haccept⟩ := handleConnect_accepted hresult
      rw [authn_accept haccept]
      exact (admission_admitted hadmit).1.authn
  | refused err connack u =>
      rw [hresult] at h
      cases h
      exact (admission_refused (handleConnect_refused hresult)).1.authn
  | panicked =>
      rw [hresult] at h
      cases h

end Refused

/-- A refused CONNECT leaves the broker as it was exactly if the connection had no client ID
and is refused before it takes one. -/
theorem refused_unchanged_iff (env : HandshakeEnv) (now i : Nat) (body : List UInt8)
    (b b' b'' : BrokerState) (err : ConnectError) (connack : Refusal)
    (hrefused : b.handleConnect env i body = .refused err connack b')
    (hcleanup : b'.cleanup now i = some b'') :
    b''.shared = b.shared ↔ (b.conns i).conn.clientID = [] ∧ TakesNoID env i body b := by
  obtain ⟨htouched, hcases⟩ := admission_refused (handleConnect_refused hrefused)
  have hshared := htouched.shared
  have hgauge : b'.activeConnections = b.activeConnections :=
    congrArg Shared.activeConnections hshared
  -- an ID costs one active connection
  have hchanged (hid : (b'.conns i).conn.clientID ≠ []) : b''.shared ≠ b.shared := by
    intro heq
    have hsame : b''.activeConnections = b.activeConnections :=
      congrArg Shared.activeConnections heq
    have hless := activeConnections_cleanup hcleanup hid
    omega
  rcases hcases with ⟨hearly, hid⟩ | ⟨hlate, hid⟩
  · by_cases hnone : (b.conns i).conn.clientID = []
    · have hunchanged := (shared_cleanup hcleanup (hid.trans hnone)).trans hshared
      exact iff_of_true hunchanged ⟨hnone, hearly⟩
    · exact iff_of_false (hchanged (hid ▸ hnone)) (fun hcond => hnone hcond.1)
  · exact iff_of_false (hchanged hid) (fun hcond => hlate hcond.2)

/-- A broker on which client c1 is connected, and a second connection that has sent nothing. -/
def sampleBroker : BrokerState where
  authn := Authenticator.new (str "k") (str "luma") 3 4
  conns i :=
    { conn :=
        { clientID := if i = 0 then str "c1" else []
          version := 0
          state := if i = 0 then .connected else .handshaking
          writeQ := []
          writeQueueSize := 16
          topicAliases := FinMap.empty
          peerRecvMax := 0
          peerMaxPacketSize := 0
          negotiatedTopicAliasMax := 0 }
      username := []
      sess := if i = 0 then some 0 else none
      remoteAddr := str "r"
      cert := none
      socketOpen := true }
  clients := FinMap.empty.set (str "c1") 0
  sessions := Store.newStore.create (str "c1") false 0
  router := Router.new
  activeConnections := 1
  activeSessions := 1

/-- The plugins let nobody in under the name c1. -/
def sampleEnv : HandshakeEnv where
  jwt := Jwt.clear
  bcrypt := Bcrypt.clear
  now := 0
  place := 0
  topicAliasMax := 0
  onClientConnect cid _ := if cid = str "c1" then some "reserved" else none

/-- A CONNECT of protocol level 4 as c1, for a persistent session. -/
def connectBytes (flags : UInt8) (credentials : List UInt8) : List UInt8 :=
  [0, 4, 77, 81, 84, 84, 4, flags, 0, 60, 0, 2, 99, 49] ++ credentials

def samplePacket (username password : GoString) : Protocol.ConnectPacket :=
  ⟨4, false, 60, 0, 0, 0, 0, false, 0, false, username ≠ [], password ≠ [], str "c1", [], [],
    username, password⟩

theorem decodeConnect_plain :
    Protocol.decodeConnect (connectBytes 0 []) =
      .ok (samplePacket [] []) ⟨connectBytes 0 [], 14⟩ := by
  decide +kernel

theorem decodeConnect_password :
    Protocol.decodeConnect (connectBytes 0xC0 [0, 1, 98, 0, 1, 112]) =
      .ok (samplePacket (str "b") (str "p")) ⟨connectBytes 0xC0 [0, 1, 98, 0, 1, 112], 20⟩ := by
  decide +kernel

/-- A password that is not accepted. -/
theorem refused_unchanged_password :
    ∃ b' b'', sampleBroker.handleConnect sampleEnv 1 (connectBytes 0xC0 [0, 1, 98, 0, 1, 112]) =
        .refused (.auth .badCredentials) ⟨false, connRefusedBadCredentials⟩ b' ∧
      b'.cleanup 0 1 = some b'' ∧ b''.shared = sampleBroker.shared := by
  obtain ⟨b', b'', hrefused, hcleanup⟩ : ∃ b' b'',
      sampleBroker.handleConnect sampleEnv 1 (connectBytes 0xC0 [0, 1, 98, 0, 1, 112]) =
        .refused (.auth .badCredentials) ⟨false, connRefusedBadCredentials⟩ b' ∧
      b'.cleanup 0 1 = some b'' := by
    unfold handleConnect admission
    rw [decodeConnect_password]
    exact ⟨_, _, rfl, rfl⟩
  refine ⟨b', b'', hrefused, hcleanup, ?_⟩
  refine (refused_unchanged_iff _ _ _ _ _ _ _ _ _ hrefused hcleanup).mpr ⟨rfl, ?_⟩
  intro pkt t hok
  rw [decodeConnect_password] at hok
  cases hok
  exact .inl (by decide)

/-- A CONNECT that the plugins refuse takes the entry of the client that is connected under
the same ID out of the map, and lowers the gauge that it never raised. -/
theorem plugin_refusal_unregisters :
    ∃ b' b'', sampleBroker.handleConnect sampleEnv 1 (connectBytes 0 []) =
        .refused (.plugin "reserved") ⟨false, connRefusedNotAuthorized⟩ b' ∧
      b'.cleanup 0 1 = some b'' ∧ sampleBroker.clients.get (str "c1") = some 0 ∧
      b''.clients.get (str "c1") = none ∧
        b''.activeConnections = sampleBroker.activeConnections - 1 := by
  unfold handleConnect admission
  rw [decodeConnect_plain]
  exact ⟨_, _, rfl, rfl, rfl, rfl, rfl⟩

end BrokerState
end LumaBroker.Broker
