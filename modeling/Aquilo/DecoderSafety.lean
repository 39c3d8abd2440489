/-
The wire decoder with the checks Rust makes at run time: on no input does a word
overflow or a slice lie out of bounds, and every loop ends.
-/
import Aquilo.ConnectRoundTrip
import Aquilo.Panicking
import Aquilo.WirePackets

namespace Aquilo

open Panicking

namespace MqttWire

/-- The packet id of a PUBLISH that asks for a quality of service. -/
def readPacketId (qos : UInt8) (body : List UInt8) (off : ℕ) :
    Option (Option UInt16 × ℕ) :=
  if 0 < qos then
    body[off]?.bind fun hi => body[off + 1]?.bind fun lo =>
      some (some (UInt16.ofNat (pair hi lo)), off + 2)
  else some (none, off)

theorem decodePublish_eq (flags : UInt8) (body : List UInt8) :
    decodePublish flags body =
      (readStr body 0).bind fun topic =>
      (readPacketId ((flags >>> 1) &&& 0x03) body topic.2).bind fun packetId =>
        if packetId.2 ≤ body.length then
          some (.publish ⟨topic.1, body.drop packetId.2, (flags >>> 1) &&& 0x03,
            decide (flags &&& 0x01 ≠ 0), packetId.1⟩)
        else none := by
  unfold decodePublish readPacketId
  refine congrArg (Option.bind _) (funext fun topic => ?_)
  by_cases hqos : (0 : UInt8) < flags >>> 1 &&& 0x03 <;>
    simp [hqos, Option.bind_assoc]

end MqttWire

namespace CheckedWire

section Decoder

variable (w : ℕ)

def readBytes (b : List UInt8) (off : ℕ) : Fallible (List UInt8 × ℕ) := do
  let hi ← get? b off
  let lo ← get? b (← add w off 1)
  let len := (← shiftLeft w hi.toNat 8) ||| lo.toNat
  let start ← add w off 2
  let stop ← add w start len
  if b.length < stop then failure
  else do
    let bytes ← slice b start stop
    return (bytes, stop)

def readStr (b : List UInt8) (off : ℕ) : Fallible (String × ℕ) := do
  let read ← readBytes w b off
  return (Utf8.fromUtf8Lossy read.1, read.2)

/-- Will topic and will message. -/
def skipPair (announced : Prop) [Decidable announced] (b : List UInt8)
    (off : ℕ) : Fallible ℕ :=
  if announced then do
    let topic ← readBytes w b off
    let message ← readBytes w b topic.2
    return message.2
  else return off

/-- Username or password. -/
def readOptional (announced : Prop) [Decidable announced] (b : List UInt8)
    (off : ℕ) : Fallible (Option String × ℕ) :=
  if announced then do
    let read ← readStr w b off
    return (some read.1, read.2)
  else return (none, off)

def decodeConnect (body : List UInt8) : Fallible Packet := do
  let name ← readBytes w body 0
  let _level ← get? body name.2
  let off ← add w name.2 1
  let flags ← get? body off
  let off ← add w off 1
  let off ← add w off 2
  if body.length < off then failure
  else do
    let clientId ← readStr w body off
    let off ← skipPair w (flags &&& 0x04 ≠ 0) body clientId.2
    let username ← readOptional w (flags &&& 0x80 ≠ 0) body off
    let password ← readOptional w (flags &&& 0x40 ≠ 0) body username.2
    return .connect ⟨clientId.1, username.1, password.1⟩

/-- The packet id of a PUBLISH that asks for a quality of service. -/
def readPacketId (qos : UInt8) (body : List UInt8) (off : ℕ) :
    Fallible (Option UInt16 × ℕ) :=
  if 0 < qos then do
    let hi ← get? body off
    let lo ← get? body (← add w off 1)
    let off ← add w off 2
    return (some (UInt16.ofNat (MqttWire.pair hi lo)), off)
  else return (none, off)

def decodePublish (flags : UInt8) (body : List UInt8) : Fallible Packet := do
  let qos := (flags >>> 1) &&& 0x03
  let retain := decide (flags &&& 0x01 ≠ 0)
  let topic ← readStr w body 0
  let packetId ← readPacketId w qos body topic.2
  if packetId.2 ≤ body.length then
    return .publish ⟨topic.1, body.drop packetId.2, qos, retain, packetId.1⟩
  else failure

/-- One turn of the topic loop, from an offset with the topics so far. -/
def topicTurn (body : List UInt8) (s : ℕ × List String) :
    Checked (Turn (ℕ × List String) (Option (List String))) :=
  if s.1 < body.length then do
    match ← (readStr w body s.1).run with
    | none => return .done none
    | some read => do
        let off ← add w read.2 1
        return .next (off, s.2 ++ [read.1])
  else return .done (some s.2)

/-- The topic loop is granted a turn for each three bytes and one to end. -/
def subscribeTopics (body : List UInt8) (off : ℕ) : Fallible (List String) :=
  OptionT.mk (loop (topicTurn w body) (body.length / 3 + 1) (off, []))

def decodeSubscribe (body : List UInt8) : Fallible Packet := do
  let hi ← get? body 0
  let lo ← get? body (← add w 0 1)
  let off ← add w 0 2
  let topics ← subscribeTopics w body off
  return .subscribe ⟨UInt16.ofNat (MqttWire.pair hi lo), topics⟩

def decodeBody (kind flags : UInt8) (body : List UInt8) : Fallible Packet :=
  if kind = 1 then decodeConnect w body
  else if kind = 3 then decodePublish w flags body
  else if kind = 8 then decodeSubscribe w body
  else if kind = 12 then return .pingReq
  else if kind = 14 then return .disconnect
  else return .other kind

/-- What the remaining-length loop carries. -/
structure LengthState where
  mult : ℕ
  len : ℕ
  i : ℕ

def lengthTurn (buf : List UInt8) (s : LengthState) :
    Checked (Turn LengthState MqttWire.LengthField) :=
  match buf[s.i]? with
  | none => .ok (.done .incomplete)
  | some b => do
      let digit ← mul w (b &&& 0x7f).toNat s.mult
      let len ← add w s.len digit
      let mult ← mul w s.mult 128
      let i ← add w s.i 1
      if b &&& 0x80 = 0 then return .done (.value len i)
      else if 5 ≤ i then return .done .corrupt
      else return .next ⟨mult, len, i⟩

def nextFrame (buf : List UInt8) : Checked Frame :=
  if buf.length < 2 then .ok .incomplete
  else do
    let kind := (← index buf 0) >>> 4
    let flags := (← index buf 0) &&& 0x0f
    match ← loop (lengthTurn w buf) 4 ⟨1, 0, 1⟩ with
    | .incomplete => return .incomplete
    | .corrupt => return .corrupt
    | .value len i => do
        let total ← add w i len
        if buf.length < total then return .incomplete
        else do
          let body ← slice buf i total
          let pkt ← (decodeBody w kind flags body).run
          return .packet pkt total

/-- What the loop of a push carries. -/
structure PushState where
  out : List Packet
  buf : List UInt8

def pushTurn (s : PushState) :
    Checked (Turn PushState (List Packet × List UInt8)) := do
  match ← nextFrame w s.buf with
  | .packet pkt total => do
      let rest ← drainFront s.buf total
      return .next ⟨s.out ++ pkt.toList, rest⟩
  | .incomplete => return .done (s.out, s.buf)
  | .corrupt => return .done (s.out, [])

/-- The loop of a push is granted a turn for each two bytes and one to end. -/
def push (d : Decoder) (chunk : List UInt8) : Checked (List Packet × Decoder) := do
  let buf := d.buf ++ chunk
  let drained ← loop (pushTurn w) (buf.length / 2 + 1) ⟨[], buf⟩
  return (drained.1, ⟨drained.2⟩)

def pushAll (d : Decoder) :
    List (List UInt8) → Checked (List Packet × Decoder)
  | [] => .ok ([], d)
  | chunk :: chunks => do
      let head ← push w d chunk
      let tail ← pushAll head.2 chunks
      return (head.1 ++ tail.1, tail.2)

end Decoder

section Safe

variable {w : ℕ} {body : List UInt8}

theorem fits (hw : 32 ≤ w) {n : ℕ} (hn : n < 2 ^ 32) : n < 2 ^ w :=
  hn.trans_le (Nat.pow_le_pow_right (by decide) hw)

theorem finds_readBytes (hw : 32 ≤ w) (hbody : body.length ≤ maxRemainingLength)
    (off : ℕ) : Finds (readBytes w body off) (MqttWire.readBytes body off) := by
  rw [maxRemainingLength] at hbody
  unfold readBytes MqttWire.readBytes
  refine Finds.bind (Finds.get? body off) fun hi hhi => ?_
  obtain ⟨hoff, -⟩ := List.getElem?_eq_some_iff.mp hhi
  refine Finds.ok_bind (add_ok (fits hw (by omega))) ?_
  refine Finds.bind (Finds.get? body (off + 1)) fun lo _ => ?_
  have hle := MqttWire.pair_le hi lo
  have hshift : hi.toNat <<< 8 ≤ 65535 := by
    have := hi.toNat_lt
    rw [Nat.shiftLeft_eq]
    omega
  refine Finds.ok_bind (shiftLeft_ok (fits hw (by omega))) ?_
  refine Finds.ok_bind (add_ok (fits hw (by omega))) ?_
  refine Finds.ok_bind (add_ok (fits hw ?_)) ?_
  · change off + 2 + MqttWire.pair hi lo < _
    omega
  refine Finds.ite (fun _ => Finds.failure) fun hfits => ?_
  exact Finds.ok_bind (slice_ok (Nat.le_add_right _ _) (Nat.le_of_not_lt hfits))
    (Finds.pure _)

theorem finds_readStr (hw : 32 ≤ w) (hbody : body.length ≤ maxRemainingLength)
    (off : ℕ) : Finds (readStr w body off) (MqttWire.readStr body off) :=
  Finds.map (finds_readBytes hw hbody off) _

theorem finds_skipPair (hw : 32 ≤ w) (hbody : body.length ≤ maxRemainingLength)
    (announced : Prop) [Decidable announced] (off : ℕ) :
    Finds (skipPair w announced body off)
      (MqttWire.skipPair announced body off) := by
  refine Finds.ite (fun _ => ?_) fun _ => Finds.pure off
  refine Finds.bind (finds_readBytes hw hbody off) fun topic _ => ?_
  exact Finds.map (finds_readBytes hw hbody topic.2) Prod.snd

theorem finds_readOptional (hw : 32 ≤ w)
    (hbody : body.length ≤ maxRemainingLength) (announced : Prop)
    [Decidable announced] (off : ℕ) :
    Finds (readOptional w announced body off)
      (MqttWire.readOptional announced body off) := by
  refine Finds.ite (fun _ => ?_) fun _ => Finds.pure (none, off)
  exact Finds.map (finds_readStr hw hbody off) fun read => (some read.1, read.2)

theorem finds_decodeConnect (hw : 32 ≤ w)
    (hbody : body.length ≤ maxRemainingLength) :
    Finds (decodeConnect w body) (MqttWire.decodeConnect body) := by
  have hlen : body.length ≤ 268435455 := hbody
  rw [MqttWire.decodeConnect_eq]
  refine Finds.bind (finds_readBytes hw hbody 0) fun name hname => ?_
  obtain ⟨-, hstop, -⟩ := MqttWire.readBytes_eq_some hname
  refine Finds.bind (Finds.get? body name.2) fun _ _ => ?_
  refine Finds.ok_bind (add_ok (fits hw (by omega))) ?_
  refine Finds.bind (Finds.get? body (name.2 + 1)) fun flags _ => ?_
  refine Finds.ok_bind (add_ok (fits hw (by omega))) ?_
  refine Finds.ok_bind (add_ok (fits hw (by omega))) ?_
  refine Finds.ite (fun _ => Finds.failure) fun _ => ?_
  refine Finds.bind (finds_readStr hw hbody _) fun clientId _ => ?_
  refine Finds.bind (finds_skipPair hw hbody _ _) fun off _ => ?_
  refine Finds.bind (finds_readOptional hw hbody _ _) fun username _ => ?_
  exact Finds.map (finds_readOptional hw hbody _ _) _

theorem finds_readPacketId (hw : 32 ≤ w)
    (hbody : body.length ≤ maxRemainingLength) (qos : UInt8) (off : ℕ) :
    Finds (readPacketId w qos body off)
      (MqttWire.readPacketId qos body off) := by
  rw [maxRemainingLength] at hbody
  refine Finds.ite (fun _ => ?_) fun _ => Finds.pure (none, off)
  refine Finds.bind (Finds.get? body off) fun hi hhi => ?_
  obtain ⟨hoff, -⟩ := List.getElem?_eq_some_iff.mp hhi
  refine Finds.ok_bind (add_ok (fits hw (by omega))) ?_
  refine Finds.bind (Finds.get? body (off + 1)) fun lo _ => ?_
  exact Finds.ok_bind (add_ok (fits hw (by omega))) (Finds.pure _)

theorem finds_decodePublish (hw : 32 ≤ w)
    (hbody : body.length ≤ maxRemainingLength) (flags : UInt8) :
    Finds (decodePublish w flags body) (MqttWire.decodePublish flags body) := by
  rw [MqttWire.decodePublish_eq]
  refine Finds.bind (finds_readStr hw hbody 0) fun topic _ => ?_
  refine Finds.bind (finds_readPacketId hw hbody _ _) fun packetId _ => ?_
  exact Finds.ite (fun _ => Finds.pure _) fun _ => Finds.failure

theorem topicTurn_of_length_le {s : ℕ × List String} (h : body.length ≤ s.1) :
    topicTurn w body s = .ok (.done (some s.2)) := if_neg (by omega)

theorem topicTurn_of_none (hw : 32 ≤ w)
    (hbody : body.length ≤ maxRemainingLength) {s : ℕ × List String}
    (hs : s.1 < body.length) (h : MqttWire.readStr body s.1 = none) :
    topicTurn w body s = .ok (.done none) := by
  rw [topicTurn, if_pos hs, ok_bind (finds_readStr hw hbody s.1), h]
  rfl

theorem topicTurn_of_readStr (hw : 32 ≤ w)
    (hbody : body.length ≤ maxRemainingLength) {s : ℕ × List String}
    {topic : String} {off : ℕ} (h : MqttWire.readStr body s.1 = some (topic, off)) :
    topicTurn w body s = .ok (.next (off + 1, s.2 ++ [topic])) := by
  have hbounds := MqttWire.readStr_bounds h
  have hoff : off + 1 < 2 ^ w := by
    rw [maxRemainingLength] at hbody
    exact fits hw (by omega)
  rw [topicTurn, if_pos (by omega), ok_bind (finds_readStr hw hbody s.1), h]
  exact ok_bind (add_ok hoff) _

/-- The topic loop advances on every turn that goes on. -/
theorem topicTurn_advances (hw : 32 ≤ w)
    (hbody : body.length ≤ maxRemainingLength) {s s' : ℕ × List String}
    (h : topicTurn w body s = .ok (.next s')) : s.1 + 3 ≤ s'.1 := by
  by_cases hs : s.1 < body.length
  · cases hread : MqttWire.readStr body s.1 with
    | none =>
        rw [topicTurn_of_none hw hbody hs hread] at h
        cases h
    | some read =>
        rw [topicTurn_of_readStr hw hbody hread] at h
        cases h
        have hbounds := MqttWire.readStr_bounds hread
        omega
  · rw [topicTurn_of_length_le (by omega)] at h
    cases h

theorem finds_subscribeTopics (hw : 32 ≤ w)
    (hbody : body.length ≤ maxRemainingLength) {off : ℕ} (hoff : 2 ≤ off) :
    Finds (subscribeTopics w body off) (MqttWire.subscribeTopics body off) := by
  have hturn : ∀ s : ℕ × List String, True →
      let result := (MqttWire.subscribeTopics body s.1).map (s.2 ++ ·)
      topicTurn w body s = .ok (.done result) ∨
        ∃ s' : ℕ × List String, topicTurn w body s = .ok (.next s') ∧ True ∧
          (body.length - s'.1 + 2) / 3 < (body.length - s.1 + 2) / 3 ∧
          (MqttWire.subscribeTopics body s'.1).map (s'.2 ++ ·) = result := by
    intro s _
    by_cases hs : s.1 < body.length
    · cases hread : MqttWire.readStr body s.1 with
      | none =>
          refine Or.inl ?_
          rw [topicTurn_of_none hw hbody hs hread,
            MqttWire.subscribeTopics_of_none hs hread]
          rfl
      | some read =>
          have hbounds := MqttWire.readStr_bounds hread
          refine Or.inr ⟨_, topicTurn_of_readStr hw hbody hread, trivial, ?_, ?_⟩
          · dsimp only
            omega
          · rw [MqttWire.subscribeTopics_of_readStr hread, Option.map_map]
            simp [Function.comp_def]
    · have hend : body.length ≤ s.1 := Nat.le_of_not_lt hs
      refine Or.inl ?_
      rw [topicTurn_of_length_le hend,
        MqttWire.subscribeTopics_of_length_le hend, Option.map_some,
        List.append_nil]
  have hloop := loop_eq_ok (fun _ => True) _ _ hturn (s := (off, [])) trivial
    (show (body.length - off + 2) / 3 < body.length / 3 + 1 by omega)
  rw [Finds, subscribeTopics, OptionT.run_mk, hloop]
  simp

theorem finds_decodeSubscribe (hw : 32 ≤ w)
    (hbody : body.length ≤ maxRemainingLength) :
    Finds (decodeSubscribe w body) (MqttWire.decodeSubscribe body) := by
  refine Finds.bind (Finds.get? body 0) fun hi _ => ?_
  refine Finds.ok_bind (add_ok (fits hw (by decide))) ?_
  refine Finds.bind (Finds.get? body 1) fun lo _ => ?_
  refine Finds.ok_bind (add_ok (fits hw (by decide))) ?_
  refine Finds.bind (finds_subscribeTopics hw hbody le_rfl) fun topics _ => ?_
  exact Finds.pure _

theorem finds_decodeBody (hw : 32 ≤ w)
    (hbody : body.length ≤ maxRemainingLength) (kind flags : UInt8) :
    Finds (decodeBody w kind flags body)
      (MqttWire.decodeBody kind flags body) := by
  refine Finds.ite (fun _ => finds_decodeConnect hw hbody) fun _ => ?_
  refine Finds.ite (fun _ => finds_decodePublish hw hbody flags) fun _ => ?_
  refine Finds.ite (fun _ => finds_decodeSubscribe hw hbody) fun _ => ?_
  refine Finds.ite (fun _ => Finds.pure _) fun _ => ?_
  exact Finds.ite (fun _ => Finds.pure _) fun _ => Finds.pure _

namespace LengthState

/-- What the remaining-length loop keeps: the weight of the next digit, and less
than one of it in what has been read. -/
structure Bounded (s : LengthState) : Prop where
  first : 1 ≤ s.i
  last : s.i ≤ 4
  mult_eq : s.mult = 128 ^ (s.i - 1)
  len_lt : s.len < s.mult

theorem bounded_start : Bounded ⟨1, 0, 1⟩ :=
  ⟨le_rfl, by decide, rfl, by decide⟩

variable {s : LengthState}

theorem Bounded.mult_le (h : s.Bounded) : s.mult ≤ 2097152 := by
  have hlast := h.last
  rw [h.mult_eq]
  exact Nat.pow_le_pow_right (by decide) (show s.i - 1 ≤ 3 by omega)

/-- One digit more is less than the next weight. -/
theorem Bounded.digit_lt (h : s.Bounded) (b : UInt8) :
    s.len + (b &&& 0x7f).toNat * s.mult < s.mult * 128 := by
  have hlen := h.len_lt
  have hdigit : (b &&& 0x7f).toNat ≤ 127 := Nat.le_of_lt_succ (Varint.digit_lt b)
  have hmul := Nat.mul_le_mul_right s.mult hdigit
  omega

theorem Bounded.next (h : s.Bounded) (b : UInt8) (hi : s.i + 1 ≤ 4) :
    Bounded ⟨s.mult * 128, s.len + (b &&& 0x7f).toNat * s.mult, s.i + 1⟩ where
  first := Nat.le_add_left 1 s.i
  last := hi
  mult_eq := by
    have hfirst := h.first
    have hexp : s.i + 1 - 1 = s.i - 1 + 1 := by omega
    change s.mult * 128 = 128 ^ (s.i + 1 - 1)
    rw [hexp, Nat.pow_succ, h.mult_eq]
  len_lt := h.digit_lt b

/-- The length that is found, and where its field ends. -/
theorem Bounded.value_le {rest : List UInt8} (h : s.Bounded) {len i : ℕ}
    (hvalue : MqttWire.readLength rest s.mult s.len s.i = .value len i) :
    len ≤ maxRemainingLength ∧ i ≤ 5 := by
  induction rest generalizing s with
  | nil => cases hvalue
  | cons b rest ih =>
      have hlast := h.last
      rw [MqttWire.readLength] at hvalue
      split at hvalue
      · cases hvalue
        have hdigit := h.digit_lt b
        have hmult := h.mult_le
        rw [maxRemainingLength]
        exact ⟨by omega, by omega⟩
      · split at hvalue
        · cases hvalue
        · exact ih (h.next b (by omega)) hvalue

end LengthState

theorem lengthTurn_of_none {buf : List UInt8} {s : LengthState}
    (h : buf[s.i]? = none) : lengthTurn w buf s = .ok (.done .incomplete) := by
  rw [lengthTurn, h]

theorem lengthTurn_of_some (hw : 32 ≤ w) {buf : List UInt8} {s : LengthState}
    (hs : s.Bounded) {b : UInt8} (h : buf[s.i]? = some b) :
    lengthTurn w buf s =
      let len := s.len + (b &&& 0x7f).toNat * s.mult
      if b &&& 0x80 = 0 then .ok (.done (.value len (s.i + 1)))
      else if 5 ≤ s.i + 1 then .ok (.done .corrupt)
      else .ok (.next ⟨s.mult * 128, len, s.i + 1⟩) := by
  have hmult := hs.mult_le
  have hlast := hs.last
  have hdigit := hs.digit_lt b
  rw [lengthTurn, h]
  dsimp only
  rw [ok_bind (mul_ok (fits hw (by omega))), ok_bind (add_ok (fits hw (by omega))),
    ok_bind (mul_ok (fits hw (by omega))), ok_bind (add_ok (fits hw (by omega)))]
  rfl

/-- The remaining-length loop ends within its four turns. -/
theorem loop_lengthTurn (hw : 32 ≤ w) (buf : List UInt8) :
    loop (lengthTurn w buf) 4 ⟨1, 0, 1⟩ =
      .ok (MqttWire.readLength (buf.drop 1) 1 0 1) := by
  have hturn : ∀ s : LengthState, s.Bounded →
      let result := MqttWire.readLength (buf.drop s.i) s.mult s.len s.i
      lengthTurn w buf s = .ok (.done result) ∨
        ∃ s' : LengthState, lengthTurn w buf s = .ok (.next s') ∧ s'.Bounded ∧
          4 - s'.i < 4 - s.i ∧
          MqttWire.readLength (buf.drop s'.i) s'.mult s'.len s'.i = result := by
    intro s hs
    have hlast := hs.last
    cases hb : buf[s.i]? with
    | none =>
        rw [List.getElem?_eq_none_iff] at hb
        refine Or.inl ?_
        rw [lengthTurn_of_none (List.getElem?_eq_none hb),
          List.drop_eq_nil_of_le hb]
        rfl
    | some b =>
        obtain ⟨hlt, hget⟩ := List.getElem?_eq_some_iff.mp hb
        rw [lengthTurn_of_some hw hs hb, List.drop_eq_getElem_cons hlt, hget,
          MqttWire.readLength]
        by_cases hend : b &&& 0x80 = 0
        · exact Or.inl (by simp [hend])
        · by_cases hfive : 5 ≤ s.i + 1
          · exact Or.inl (by simp [hend, hfive])
          · refine Or.inr ⟨⟨s.mult * 128, s.len + (b &&& 0x7f).toNat * s.mult,
              s.i + 1⟩, ?_, hs.next b (by omega), ?_, ?_⟩
            · simp [hend, hfive]
            · dsimp only
              omega
            · simp [hend, hfive]
  exact loop_eq_ok LengthState.Bounded _ _ hturn LengthState.bounded_start
    (by decide)

theorem nextFrame_eq (hw : 32 ≤ w) (buf : List UInt8) :
    nextFrame w buf = .ok (MqttWire.nextFrame buf) := by
  match buf with
  | [] => rfl
  | [_] => rfl
  | b₀ :: b₁ :: rest =>
      have hshort : ¬ (b₀ :: b₁ :: rest).length < 2 := by simp
      have hloop := loop_lengthTurn hw (b₀ :: b₁ :: rest)
      rw [List.drop_one, List.tail_cons] at hloop
      rw [nextFrame, if_neg hshort, ok_bind (index_ok rfl), ok_bind (index_ok rfl),
        ok_bind hloop, MqttWire.nextFrame]
      cases hfield : MqttWire.readLength (b₁ :: rest) 1 0 1 with
      | incomplete => rfl
      | corrupt => rfl
      | value len i =>
          obtain ⟨hlen, hi⟩ := LengthState.bounded_start.value_le hfield
          have hsum : i + len < 2 ^ w := by
            rw [maxRemainingLength] at hlen
            exact fits hw (by omega)
          dsimp only
          rw [ok_bind (add_ok hsum)]
          split
          · rfl
          · rename_i hfits
            have hbody : (((b₀ :: b₁ :: rest).take (i + len)).drop i).length ≤
                maxRemainingLength := by
              rw [List.length_drop, List.length_take]
              omega
            rw [ok_bind (slice_ok (Nat.le_add_right i len)
                (Nat.le_of_not_lt hfits)), ok_bind (finds_decodeBody hw hbody _ _)]
            rfl

theorem pushTurn_of_packet (hw : 32 ≤ w) {s : PushState} {pkt : Option Packet}
    {total : ℕ} (h : MqttWire.nextFrame s.buf = .packet pkt total) :
    pushTurn w s = .ok (.next ⟨s.out ++ pkt.toList, s.buf.drop total⟩) := by
  have htotal := (MqttWire.nextFrame_total h).2
  rw [pushTurn, ok_bind (nextFrame_eq hw s.buf), h]
  exact ok_bind (drainFront_ok htotal) _

theorem pushTurn_of_incomplete (hw : 32 ≤ w) {s : PushState}
    (h : MqttWire.nextFrame s.buf = .incomplete) :
    pushTurn w s = .ok (.done (s.out, s.buf)) := by
  rw [pushTurn, ok_bind (nextFrame_eq hw s.buf), h]
  rfl

theorem pushTurn_of_corrupt (hw : 32 ≤ w) {s : PushState}
    (h : MqttWire.nextFrame s.buf = .corrupt) :
    pushTurn w s = .ok (.done (s.out, [])) := by
  rw [pushTurn, ok_bind (nextFrame_eq hw s.buf), h]
  rfl

/-- Every turn of a push that goes on takes at least two bytes. -/
theorem pushTurn_takes (hw : 32 ≤ w) {s s' : PushState}
    (h : pushTurn w s = .ok (.next s')) : s'.buf.length + 2 ≤ s.buf.length := by
  cases hnext : MqttWire.nextFrame s.buf with
  | packet pkt total =>
      have htotal := MqttWire.nextFrame_total hnext
      rw [pushTurn_of_packet hw hnext] at h
      cases h
      rw [List.length_drop]
      omega
  | incomplete =>
      rw [pushTurn_of_incomplete hw hnext] at h
      cases h
  | corrupt =>
      rw [pushTurn_of_corrupt hw hnext] at h
      cases h

theorem loop_pushTurn (hw : 32 ≤ w) (buf : List UInt8) :
    loop (pushTurn w) (buf.length / 2 + 1) ⟨[], buf⟩ = .ok (Decoder.drain buf) := by
  have hturn : ∀ s : PushState, True →
      let result := (s.out ++ (Decoder.drain s.buf).1, (Decoder.drain s.buf).2)
      pushTurn w s = .ok (.done result) ∨
        ∃ s' : PushState, pushTurn w s = .ok (.next s') ∧ True ∧
          s'.buf.length / 2 < s.buf.length / 2 ∧
          (s'.out ++ (Decoder.drain s'.buf).1, (Decoder.drain s'.buf).2) =
            result := by
    intro s _
    cases hnext : MqttWire.nextFrame s.buf with
    | packet pkt total =>
        have hturn := pushTurn_of_packet hw hnext
        have htakes := pushTurn_takes hw hturn
        refine Or.inr ⟨_, hturn, trivial, by omega, ?_⟩
        rw [Decoder.drain_of_packet hnext, List.append_assoc]
    | incomplete =>
        refine Or.inl ?_
        rw [pushTurn_of_incomplete hw hnext, Decoder.drain_of_incomplete hnext,
          List.append_nil]
    | corrupt =>
        refine Or.inl ?_
        rw [pushTurn_of_corrupt hw hnext, Decoder.drain_of_corrupt hnext,
          List.append_nil]
  exact loop_eq_ok (fun _ => True) _ _ hturn trivial (Nat.lt_succ_self _)

theorem push_eq (hw : 32 ≤ w) (d : Decoder) (chunk : List UInt8) :
    push w d chunk = .ok (d.push chunk) :=
  ok_bind (loop_pushTurn hw (d.buf ++ chunk)) _

theorem pushAll_eq (hw : 32 ≤ w) (d : Decoder) (chunks : List (List UInt8)) :
    pushAll w d chunks = .ok (d.pushAll chunks) := by
  induction chunks generalizing d with
  | nil => rfl
  | cons chunk chunks ih =>
      rw [pushAll, ok_bind (push_eq hw d chunk), ok_bind (ih _)]
      rfl

end Safe

end CheckedWire

/-- With words of 32 bits or more no chunks make the decoder panic: every slice,
index and drain is in bounds, no word overflows and every loop ends within its
turns, those of a push taking two bytes or more each and those of the topic loop
moving on. -/
theorem decoder_never_panics (w : ℕ) (hw : 32 ≤ w) :
    (∀ (d : Decoder) (chunks : List (List UInt8)),
      CheckedWire.pushAll w d chunks = .ok (d.pushAll chunks)) ∧
    (∀ s s', CheckedWire.pushTurn w s = .ok (.next s') →
      s'.buf.length + 2 ≤ s.buf.length) ∧
    ∀ body s s', body.length ≤ maxRemainingLength →
      CheckedWire.topicTurn w body s = .ok (.next s') → s.1 < s'.1 := by
  refine ⟨CheckedWire.pushAll_eq hw, fun s s' => CheckedWire.pushTurn_takes hw, ?_⟩
  intro body s s' hbody h
  have hadvances := CheckedWire.topicTurn_advances hw hbody h
  omega

/-- A PINGREQ in two chunks and a malformed length field, and one turn of each
loop. -/
theorem ping_then_malformed :
    CheckedWire.pushAll 32 Decoder.new
        [[0xc0], [0x00, 0x10, 0xff, 0xff, 0xff, 0xff]] =
      .ok ([.pingReq], Decoder.new) ∧
    (∃ s, CheckedWire.pushTurn 32 ⟨[], [0xc0, 0x00, 0x10]⟩ = .ok (.next s) ∧
      s.buf.length + 2 ≤ 3) ∧
    ∃ s, CheckedWire.topicTurn 32 [0, 1, 0, 1, 0x61, 0] (2, []) =
      .ok (.next s) ∧ 2 < s.1 := by
  obtain ⟨hpush, htakes, hadvances⟩ := decoder_never_panics 32 le_rfl
  have hhalf : MqttWire.nextFrame [0xc0] = .incomplete := by decide
  have hping : MqttWire.nextFrame [0xc0, 0x00, 0x10, 0xff, 0xff, 0xff, 0xff] =
      .packet (some .pingReq) 2 := by decide
  have hfield : MqttWire.nextFrame [0x10, 0xff, 0xff, 0xff, 0xff] = .corrupt := by
    decide
  have hturn : CheckedWire.pushTurn 32 ⟨[], [0xc0, 0x00, 0x10]⟩ =
      .ok (.next ⟨[.pingReq], [0x10]⟩) :=
    CheckedWire.pushTurn_of_packet le_rfl (s := ⟨[], [0xc0, 0x00, 0x10]⟩)
      (show _ = Frame.packet (some .pingReq) 2 by decide)
  have htopic : CheckedWire.topicTurn 32 [0, 1, 0, 1, 0x61, 0] (2, []) =
      .ok (.next (6, ["a"])) :=
    CheckedWire.topicTurn_of_readStr le_rfl (by decide) (s := (2, []))
      (show _ = some ("a", 5) by decide +kernel)
  refine ⟨?_, ⟨_, hturn, htakes _ _ hturn⟩, ⟨_, htopic,
    hadvances _ _ _ (by decide) htopic⟩⟩
  rw [hpush]
  simp [Decoder.pushAll, Decoder.push, Decoder.new,
    Decoder.drain_of_incomplete hhalf, Decoder.drain_of_packet hping,
    Decoder.drain_of_corrupt hfield]

end Aquilo
