import Mathlib

namespace FiberGateway.Http2

inductive FrameType
  | data | headers | priority | rstStream | settings | pushPromise | ping | goaway | windowUpdate | continuation
  | unknown (code : UInt8)
  deriving DecidableEq, Repr

def FrameType.ofByte (code : UInt8) : FrameType :=
  if code = 0x0 then .data else if code = 0x1 then .headers else if code = 0x2 then .priority
  else if code = 0x3 then .rstStream else if code = 0x4 then .settings else if code = 0x5 then .pushPromise
  else if code = 0x6 then .ping else if code = 0x7 then .goaway else if code = 0x8 then .windowUpdate
  else if code = 0x9 then .continuation else .unknown code

def FrameType.toByte : FrameType → UInt8
  | .data => 0x0
  | .headers => 0x1
  | .priority => 0x2
  | .rstStream => 0x3
  | .settings => 0x4
  | .pushPromise => 0x5
  | .ping => 0x6
  | .goaway => 0x7
  | .windowUpdate => 0x8
  | .continuation => 0x9
  | .unknown code => code

/-- `Http2ErrorCode`: the codes this side sends, or any other 32-bit value the peer may send. -/
inductive ErrorCode
  | noError | protocolError | flowControlError | streamClosed
  | other (code : Nat)
  deriving DecidableEq, Repr

def ErrorCode.ofNat (code : Nat) : ErrorCode :=
  if code = 0x0 then .noError else if code = 0x1 then .protocolError else if code = 0x3 then .flowControlError
  else if code = 0x5 then .streamClosed else .other code

def ErrorCode.toNat : ErrorCode → Nat
  | .noError => 0x0
  | .protocolError => 0x1
  | .flowControlError => 0x3
  | .streamClosed => 0x5
  | .other code => code

structure FrameHeader where
  length : Nat
  type : FrameType
  flags : UInt8
  streamId : Nat
  deriving DecidableEq, Repr

def kClientPreface : List UInt8 :=
  "PRI * HTTP/2.0\r\n\r\nSM\r\n\r\n".toUTF8.toList

theorem kClientPreface_length : kClientPreface.length = 24 := by decide +kernel

def kFrameHeaderSize : Nat := 9
def kSettingsParameterSize : Nat := 6
def kPingPayloadSize : Nat := 8
def kWindowUpdatePayloadSize : Nat := 4
def kRstStreamPayloadSize : Nat := 4
def kGoawayMinimumPayloadSize : Nat := 8
def kDefaultHeaderTableSize : Nat := 4096
def kDefaultMaxFrameSize : Nat := 16384
def kMaxFrameSizeLimit : Nat := 16777215
def kMaxFlowControlWindow : Int := 0x7fffffff
def kInitialFlowControlWindow : Nat := 65535

def kFlagAck : UInt8 := 0x1
def kFlagEndStream : UInt8 := 0x1
def kFlagEndHeaders : UInt8 := 0x4
def kFlagPadded : UInt8 := 0x8
def kFlagPriority : UInt8 := 0x20

def FrameHeader.has (fhr : FrameHeader) (flag : UInt8) : Bool := fhr.flags &&& flag != 0

/-- The byte at `pos[i]`. -/
def byteAt (bytes : List UInt8) (i : Nat) : Nat := (bytes.getD i 0).toNat

def parseFrameLength (bytes : List UInt8) : Nat := byteAt bytes 0 * 2 ^ 16 + byteAt bytes 1 * 2 ^ 8 + byteAt bytes 2

def parseStreamId (bytes : List UInt8) : Nat :=
  (byteAt bytes 0 &&& 0x7f) * 2 ^ 24 + byteAt bytes 1 * 2 ^ 16 + byteAt bytes 2 * 2 ^ 8 + byteAt bytes 3

def parseU32 (bytes : List UInt8) : Nat :=
  byteAt bytes 0 * 2 ^ 24 + byteAt bytes 1 * 2 ^ 16 + byteAt bytes 2 * 2 ^ 8 + byteAt bytes 3

def parseU16 (bytes : List UInt8) : Nat := byteAt bytes 0 * 2 ^ 8 + byteAt bytes 1

def parseFrameHeader (bytes : List UInt8) : FrameHeader where
  length := parseFrameLength bytes
  type := .ofByte (bytes.getD 3 0)
  flags := bytes.getD 4 0
  streamId := parseStreamId (bytes.drop 5)

/-- `(value >> shift) & 0xff`. -/
def octet (value shift : Nat) : UInt8 := UInt8.ofNat (value >>> shift)

def appendU16 (value : Nat) : List UInt8 := [octet value 8, octet value 0]

def appendU32 (value : Nat) : List UInt8 := [octet value 24, octet value 16, octet value 8, octet value 0]

/-- A 31-bit value with its top bit cleared. -/
def appendU31 (value : Nat) : List UInt8 := [octet value 24 &&& 0x7f, octet value 16, octet value 8, octet value 0]

def encodeFrameHeader (fhr : FrameHeader) : List UInt8 :=
  [octet fhr.length 16, octet fhr.length 8, octet fhr.length 0, fhr.type.toByte, fhr.flags] ++ appendU31 fhr.streamId

end FiberGateway.Http2
