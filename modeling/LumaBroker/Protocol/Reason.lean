import LumaBroker.Protocol.Topic

/-!
Protocol levels and the reason bytes of SUBACK and UNSUBACK entries, as in
internal/protocol/packet.go.
-/

namespace LumaBroker.Protocol

def v311 : UInt8 := 4

def v50 : UInt8 := 5

/-- Why a subscription was not granted; ok when it was. -/
inductive SubackDenyReason where
  | ok
  | deniedInvalidTopicFilter
  | deniedNotAuthorized
  | deniedPlugin
  deriving DecidableEq

def subackGrantedQoS0 : UInt8 := 0x00

def subackGrantedQoS1 : UInt8 := 0x01

def subackGrantedQoS2 : UInt8 := 0x02

def subackTopicFilterInvalid : UInt8 := 0x8F

def reasonNotAuthorized : UInt8 := 0x87

def subackImplementationSpecific : UInt8 := 0x83

/-- The one failure code of a v3.1.1 SUBACK. -/
def subv311SubackFailure : UInt8 := 0x80

def subackReasonByte (version grantedQoS : UInt8) (deny : SubackDenyReason) : UInt8 :=
  match deny with
  | .ok =>
      if grantedQoS &&& 0x03 = 0 then subackGrantedQoS0
      else if grantedQoS &&& 0x03 = 1 then subackGrantedQoS1
      else subackGrantedQoS2
  | .deniedInvalidTopicFilter =>
      if version ≠ v50 then subv311SubackFailure else subackTopicFilterInvalid
  | .deniedNotAuthorized =>
      if version ≠ v50 then subv311SubackFailure else reasonNotAuthorized
  | .deniedPlugin =>
      if version ≠ v50 then subv311SubackFailure else subackImplementationSpecific

/-- Why a filter was not unsubscribed; ok when it was. -/
inductive UnsubackDenyReason where
  | ok
  | deniedInvalidTopicFilter
  | deniedNotAuthorized
  deriving DecidableEq

def unsubackSuccessReason : UInt8 := 0x00

def unsubackReasonByte : UnsubackDenyReason → UInt8
  | .deniedInvalidTopicFilter => subackTopicFilterInvalid
  | .deniedNotAuthorized => reasonNotAuthorized
  | .ok => unsubackSuccessReason

end LumaBroker.Protocol
