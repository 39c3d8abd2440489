/-
The wire codec: the streaming framer, the packet bodies it understands, and the
few packets it encodes.
-/
import Aquilo.Utf8
import Aquilo.Varint

namespace Aquilo

/-- The fields recovered from a CONNECT. -/
structure Connect where
  clientId : String
  username : Option String
  password : Option String
deriving DecidableEq, Repr

/-- A PUBLISH; only one with a quality of service carries a packet id. -/
structure Publish where
  topic : String
  payload : List UInt8
  qos : UInt8
  retain : Bool
  packetId : Option UInt16
deriving DecidableEq, Repr

structure Subscribe where
  packetId : UInt16
  topics : List String
deriving DecidableEq, Repr

inductive Packet where
  | connect (c : Connect)
  | publish (p : Publish)
  | subscribe (s : Subscribe)
  | pingReq
  | disconnect
  | other (kind : UInt8)
deriving DecidableEq, Repr

/-- What stands at the head of the buffer. -/
inductive Frame where
  | packet (pkt : Option Packet) (total : ℕ)
  | incomplete
  | corrupt
deriving DecidableEq, Repr

namespace MqttWire

/-- A big-endian pair of bytes. -/
def pair (hi lo : UInt8) : ℕ := hi.toNat <<< 8 ||| lo.toNat

/-- A byte string behind a two-byte length, with the offset past it. -/
def readBytes (b : List UInt8) (off : ℕ) : Option (List UInt8 × ℕ) := do
  let hi ← b[off]?
  let lo ← b[off + 1]?
  let start := off + 2
  let stop := start + pair hi lo
  if b.length < stop then none
  else some ((b.take stop).drop start, stop)

def readStr (b : List UInt8) (off : ℕ) : Option (String × ℕ) :=
  (readBytes b off).map fun (bytes, off) => (Utf8.fromUtf8Lossy bytes, off)

theorem readBytes_eq_some {b bytes : List UInt8} {off stop : ℕ}
    (h : readBytes b off = some (bytes, stop)) :
    off + 2 ≤ stop ∧ stop ≤ b.length ∧ bytes = (b.take stop).drop (off + 2) := by
  rw [readBytes] at h
  cases hhi : b[off]? with
  | none => simp [hhi] at h
  | some hi =>
      cases hlo : b[off + 1]? with
      | none => simp [hhi, hlo] at h
      | some lo =>
          simp only [hhi, hlo, Option.bind_eq_bind, Option.bind_some,
            Option.ite_none_left_eq_some, Option.some.injEq, Prod.mk.injEq] at h
          obtain ⟨hfits, rfl, rfl⟩ := h
          exact ⟨by omega, by omega, rfl⟩

theorem readStr_bounds {b : List UInt8} {off stop : ℕ} {s : String}
    (h : readStr b off = some (s, stop)) : off + 2 ≤ stop ∧ stop ≤ b.length := by
  rw [readStr, Option.map_eq_some_iff] at h
  obtain ⟨⟨bytes, stop'⟩, hread, heq⟩ := h
  cases heq
  have hbounds := readBytes_eq_some hread
  exact ⟨hbounds.1, hbounds.2.1⟩

def decodeConnect (body : List UInt8) : Option Packet := do
  let (_, off) ← readBytes body 0
  let _level ← body[off]?
  let flags ← body[off + 1]?
  let off := off + 4
  if body.length < off then none
  else do
    let (clientId, off) ← readStr body off
    let off ←
      if flags &&& 0x04 ≠ 0 then do
        let (_, off) ← readBytes body off
        let (_, off) ← readBytes body off
        pure off
      else pure off
    let (username, off) ←
      if flags &&& 0x80 ≠ 0 then
        (readStr body off).map fun (u, off) => (some u, off)
      else pure (none, off)
    let password ←
      if flags &&& 0x40 ≠ 0 then
        (readStr body off).map fun (p, _) => some p
      else pure none
    return .connect { clientId, username, password }

def decodePublish (flags : UInt8) (body : List UInt8) : Option Packet := do
  let qos := (flags >>> 1) &&& 0x03
  let retain := decide (flags &&& 0x01 ≠ 0)
  let (topic, off) ← readStr body 0
  let (packetId, off) ←
    if 0 < qos then do
      let hi ← body[off]?
      let lo ← body[off + 1]?
      pure (some (UInt16.ofNat (pair hi lo)), off + 2)
    else pure (none, off)
  let payload ← if off ≤ body.length then some (body.drop off) else none
  return .publish { topic, payload, qos, retain, packetId }

/-- The topic loop; the byte after each topic is the requested quality. -/
def subscribeTopics (body : List UInt8) (off : ℕ) : Option (List String) :=
  if off < body.length then
    match _h : readStr body off with
    | none => none
    | some (topic, off') =>
        (subscribeTopics body (off' + 1)).map (topic :: ·)
  else some []
termination_by body.length - off
decreasing_by
  have := readStr_bounds _h
  omega

theorem subscribeTopics_of_length_le {body : List UInt8} {off : ℕ}
    (h : body.length ≤ off) : subscribeTopics body off = some [] := by
  rw [subscribeTopics, if_neg (by omega)]

theorem subscribeTopics_of_readStr {body : List UInt8} {off off' : ℕ}
    {topic : String} (h : readStr body off = some (topic, off')) :
    subscribeTopics body off =
      (subscribeTopics body (off' + 1)).map (topic :: ·) := by
  have hbounds := readStr_bounds h
  rw [subscribeTopics, if_pos (by omega)]
  split
  · rename_i heq
    rw [h] at heq
    cases heq
  · rename_i heq
    rw [h] at heq
    cases heq
    rfl

theorem subscribeTopics_of_none {body : List UInt8} {off : ℕ}
    (hoff : off < body.length) (h : readStr body off = none) :
    subscribeTopics body off = none := by
  rw [subscribeTopics, if_pos hoff]
  split
  · rfl
  · rename_i heq
    rw [h] at heq
    cases heq

def decodeSubscribe (body : List UInt8) : Option Packet := do
  let hi ← body[0]?
  let lo ← body[1]?
  let packetId := UInt16.ofNat (pair hi lo)
  let topics ← subscribeTopics body 2
  return .subscribe { packetId, topics }

def decodeBody (kind flags : UInt8) (body : List UInt8) : Option Packet :=
  if kind = 1 then decodeConnect body
  else if kind = 3 then decodePublish flags body
  else if kind = 8 then decodeSubscribe body
  else if kind = 12 then some .pingReq
  else if kind = 14 then some .disconnect
  else some (.other kind)

/-- What the remaining-length loop finds. -/
inductive LengthField where
  | value (len i : ℕ)
  | incomplete
  | corrupt
deriving DecidableEq, Repr

/-- The remaining-length loop, at byte `i` of the buffer. -/
def readLength : (rest : List UInt8) → (mult len i : ℕ) → LengthField
  | [], _, _, _ => .incomplete
  | b :: rest, mult, len, i =>
      let len := len + (b &&& 0x7f).toNat * mult
      if b &&& 0x80 = 0 then .value len (i + 1)
      else if 5 ≤ i + 1 then .corrupt
      else readLength rest (mult * 128) len (i + 1)

def nextFrame (buf : List UInt8) : Frame :=
  match buf with
  | b₀ :: b₁ :: rest =>
      let kind := b₀ >>> 4
      let flags := b₀ &&& 0x0f
      match readLength (b₁ :: rest) 1 0 1 with
      | .incomplete => .incomplete
      | .corrupt => .corrupt
      | .value len i =>
          let total := i + len
          if buf.length < total then .incomplete
          else .packet (decodeBody kind flags ((buf.take total).drop i)) total
  | _ => .incomplete

theorem readLength_value {rest : List UInt8} {mult len i len' i' : ℕ}
    (h : readLength rest mult len i = .value len' i') : i < i' := by
  induction rest generalizing mult len i with
  | nil => simp [readLength] at h
  | cons b rest ih =>
      rw [readLength] at h
      split at h
      · cases h
        omega
      · split at h
        · cases h
        · have := ih h
          omega

theorem nextFrame_total {buf : List UInt8} {pkt : Option Packet} {total : ℕ}
    (h : nextFrame buf = .packet pkt total) :
    2 ≤ total ∧ total ≤ buf.length := by
  match buf with
  | [] => simp [nextFrame] at h
  | [_] => simp [nextFrame] at h
  | b₀ :: b₁ :: rest =>
      simp only [nextFrame] at h
      split at h
      · cases h
      · cases h
      · rename_i len i hlen
        have hi := readLength_value hlen
        split at h
        · cases h
        · cases h
          omega

end MqttWire

/-- Bytes that do not yet make a packet. -/
structure Decoder where
  buf : List UInt8
deriving DecidableEq, Repr

namespace Decoder

open MqttWire

def new : Decoder := ⟨[]⟩

/-- Take packets off the head of the buffer; a corrupt buffer is dropped. -/
def drain (buf : List UInt8) : List Packet × List UInt8 :=
  match _h : nextFrame buf with
  | .packet pkt total =>
      let tail := drain (buf.drop total)
      (pkt.toList ++ tail.1, tail.2)
  | .incomplete => ([], buf)
  | .corrupt => ([], [])
termination_by buf.length
decreasing_by
  have := nextFrame_total _h
  rw [List.length_drop]
  omega

/-- Feed raw bytes; every packet that is now complete comes out. -/
def push (d : Decoder) (chunk : List UInt8) : List Packet × Decoder :=
  let drained := drain (d.buf ++ chunk)
  (drained.1, ⟨drained.2⟩)

/-- The packets of a sequence of pushes, and the decoder after them. -/
def pushAll (d : Decoder) : List (List UInt8) → List Packet × Decoder
  | [] => ([], d)
  | chunk :: chunks =>
      let head := d.push chunk
      let tail := head.2.pushAll chunks
      (head.1 ++ tail.1, tail.2)

end Decoder

namespace MqttWire

/-- The fixed header byte and the remaining length in front of a body. -/
def frame (header : UInt8) (body : List UInt8) : List UInt8 :=
  header :: Varint.encode body.length ++ body

/-- Connection accepted, no session present. -/
def connack : List UInt8 := [0x20, 0x02, 0x00, 0x00]

/-- Quality of service 0 granted for each topic. -/
def suback (packetId : UInt16) (count : ℕ) : List UInt8 :=
  frame 0x90 ((packetId >>> 8).toUInt8 :: packetId.toUInt8 ::
    List.replicate count 0x00)

def puback (packetId : UInt16) : List UInt8 :=
  [0x40, 0x02, (packetId >>> 8).toUInt8, packetId.toUInt8]

def pingresp : List UInt8 := [0xd0, 0x00]

def publish (topic : String) (payload : List UInt8) (retain : Bool) :
    List UInt8 :=
  let header : UInt8 := 0x30 ||| (if retain then 0x01 else 0x00)
  let tb := Utf8.encode topic
  let body :=
    UInt8.ofNat (tb.length >>> 8) :: UInt8.ofNat tb.length :: tb ++ payload
  frame header body

end MqttWire

end Aquilo
