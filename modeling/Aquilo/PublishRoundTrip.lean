/-
Round trip of the PUBLISH encoder through the streaming decoder, and the exact
domain on which it holds.
-/
import Aquilo.MqttFraming

namespace Aquilo

open Varint

/-- What the encoder is given. -/
structure Message where
  topic : String
  payload : List UInt8
  retain : Bool
deriving DecidableEq, Repr

namespace Message

def encode (m : Message) : List UInt8 :=
  MqttWire.publish m.topic m.payload m.retain

/-- The packet the message stands for: no quality of service, no packet id. -/
def packet (m : Message) : Packet :=
  .publish { topic := m.topic, payload := m.payload, qos := 0,
             retain := m.retain, packetId := none }

def topicLength (m : Message) : ℕ := (Utf8.encode m.topic).length

def bodyLength (m : Message) : ℕ := 2 + m.topicLength + m.payload.length

/-- The topic fits its two-byte length and the body its four-byte one. -/
def InDomain (m : Message) : Prop :=
  m.topicLength ≤ 65535 ∧ m.bodyLength ≤ 268435455

instance (m : Message) : Decidable m.InDomain :=
  inferInstanceAs (Decidable (_ ∧ _))

/-- The body the encoder builds. -/
def body (m : Message) : List UInt8 :=
  UInt8.ofNat (m.topicLength >>> 8) :: UInt8.ofNat m.topicLength ::
    Utf8.encode m.topic ++ m.payload

def header (m : Message) : UInt8 := 0x30 ||| (if m.retain then 0x01 else 0x00)

theorem encode_eq (m : Message) :
    m.encode = m.header :: Varint.encode m.body.length ++ m.body := rfl

theorem length_body (m : Message) : m.body.length = m.bodyLength := by
  simp only [body, bodyLength, topicLength, List.cons_append, List.length_cons,
    List.length_append]
  omega

theorem header_shift (m : Message) : m.header >>> 4 = 3 := by
  rw [header]
  cases m.retain <;> decide

theorem header_flags (m : Message) :
    m.header &&& 0x0f = if m.retain then 0x01 else 0x00 := by
  rw [header]
  cases m.retain <;> decide

end Message

namespace MqttWire

theorem pair_eq (hi lo : UInt8) : pair hi lo = 256 * hi.toNat + lo.toNat := by
  have hlo := lo.toNat_lt
  rw [pair, Nat.mul_comm, ← Nat.shiftLeft_eq _ 8,
    Nat.shiftLeft_add_eq_or_of_lt (by omega)]

theorem pair_le (hi lo : UInt8) : pair hi lo ≤ 65535 := by
  have hhi := hi.toNat_lt
  have hlo := lo.toNat_lt
  rw [pair_eq]
  omega

theorem pair_inj {hi lo hi' lo' : UInt8} (h : pair hi lo = pair hi' lo') :
    hi = hi' ∧ lo = lo' := by
  have hlo := lo.toNat_lt
  have hlo' := lo'.toNat_lt
  rw [pair_eq, pair_eq] at h
  exact ⟨UInt8.toNat_inj.mp (by omega), UInt8.toNat_inj.mp (by omega)⟩

theorem pair_ofNat (n : ℕ) :
    pair (UInt8.ofNat (n >>> 8)) (UInt8.ofNat n) = n % 65536 := by
  rw [pair_eq, Nat.shiftRight_eq_div_pow, UInt8.toNat_ofNat',
    UInt8.toNat_ofNat']
  omega

/-- Reading back a length-prefixed string takes its length modulo `2 ^ 16`. -/
theorem readStr_prefixed {n : ℕ} {more : List UInt8}
    (h : n % 65536 ≤ more.length) :
    readStr (UInt8.ofNat (n >>> 8) :: UInt8.ofNat n :: more) 0 =
      some (Utf8.fromUtf8Lossy (more.take (n % 65536)), 2 + n % 65536) := by
  have hfits : ¬ more.length + 1 + 1 < 2 + n % 65536 := by omega
  have htake : List.drop 2 ((UInt8.ofNat (n >>> 8) :: UInt8.ofNat n ::
      more).take (2 + n % 65536)) = more.take (n % 65536) := by
    rw [List.drop_take, List.drop_succ_cons, List.drop_succ_cons,
      List.drop_zero, Nat.add_sub_cancel_left]
  simp only [readStr, readBytes, Nat.zero_add, List.getElem?_cons_zero,
    List.getElem?_cons_succ, Option.bind_eq_bind, Option.bind_some, pair_ofNat,
    List.length_cons, if_neg hfits, Option.map_some, htake]

theorem decodePublish_of_readStr {retain : Bool} {body : List UInt8}
    {topic : String} {off : ℕ} (h : readStr body 0 = some (topic, off))
    (hoff : off ≤ body.length) :
    decodePublish (if retain then 0x01 else 0x00) body =
      some (.publish { topic, payload := body.drop off, qos := 0, retain,
                       packetId := none }) := by
  have hqos : (1 : UInt8) >>> 1 &&& 3 = 0 := by decide
  cases retain <;> simp [decodePublish, h, hoff, hqos]

end MqttWire

namespace Message

/-- The frame an encoded message is, when its length field fits four bytes. -/
def wireFrame (m : Message) (h : m.bodyLength ≤ 268435455) : WireFrame where
  header := m.header
  lengthBytes := Varint.encode m.body.length
  body := m.body
  terminated := terminated_encode _
  short := by
    rw [length_encode_le_iff 3, length_body]
    omega
  value_eq := value_encode _

theorem wireFrame_bytes (m : Message) (h : m.bodyLength ≤ 268435455) :
    (m.wireFrame h).bytes = m.encode := rfl

/-- The packet an encoded message decodes to: its topic is cut to its length
modulo `2 ^ 16`. -/
theorem wireFrame_packet (m : Message) (h : m.bodyLength ≤ 268435455) :
    (m.wireFrame h).packet = some (.publish {
      topic := Utf8.fromUtf8Lossy ((Utf8.encode m.topic ++ m.payload).take
        (m.topicLength % 65536))
      payload := m.body.drop (2 + m.topicLength % 65536)
      qos := 0
      retain := m.retain
      packetId := none }) := by
  have hle : m.topicLength % 65536 ≤
      (Utf8.encode m.topic ++ m.payload).length := by
    have := Nat.mod_le m.topicLength 65536
    rw [topicLength] at this ⊢
    rw [List.length_append]
    omega
  have hoff : 2 + m.topicLength % 65536 ≤ m.body.length := by
    rw [length_body, bodyLength]
    have := Nat.mod_le m.topicLength 65536
    omega
  change MqttWire.decodeBody (m.header >>> 4) (m.header &&& 0x0f) m.body = _
  rw [header_shift, header_flags]
  change MqttWire.decodePublish _ m.body = _
  exact MqttWire.decodePublish_of_readStr (MqttWire.readStr_prefixed hle) hoff

theorem wireFrame_packet_of_inDomain (m : Message) (h : m.InDomain) :
    (m.wireFrame h.2).packet = some m.packet := by
  have hlen : m.topicLength % 65536 = (Utf8.encode m.topic).length :=
    Nat.mod_eq_of_lt (by have := h.1; omega)
  have hdrop : m.body.drop (2 + (Utf8.encode m.topic).length) = m.payload := by
    rw [body, Nat.add_comm 2, List.cons_append, List.cons_append,
      List.drop_succ_cons, List.drop_succ_cons, List.drop_left]
  rw [wireFrame_packet, hlen, List.take_left, Utf8.fromUtf8Lossy_encode, hdrop]
  rfl

theorem flatMap_encode_eq {msgs : List Message}
    (h : ∀ m ∈ msgs, m.InDomain) :
    ∃ frames : List WireFrame,
      msgs.flatMap encode = frames.flatMap WireFrame.bytes ∧
        frames.filterMap WireFrame.packet = msgs.map packet := by
  induction msgs with
  | nil => exact ⟨[], rfl, rfl⟩
  | cons m msgs ih =>
      obtain ⟨frames, hbytes, hpackets⟩ :=
        ih fun m' hm' => h m' (List.mem_cons_of_mem m hm')
      have hm := h m List.mem_cons_self
      refine ⟨m.wireFrame hm.2 :: frames, ?_, ?_⟩
      · rw [List.flatMap_cons, List.flatMap_cons, hbytes, wireFrame_bytes]
      · rw [List.filterMap_cons_some (m.wireFrame_packet_of_inDomain hm),
          hpackets, List.map_cons]

/-- Longer bodies need a fifth length byte, so the first four are continued. -/
theorem malformed_encode {m : Message} (h : 268435455 < m.bodyLength) :
    Malformed m.encode := by
  have hlong : 4 < (Varint.encode m.body.length).length := by
    by_contra hshort
    have := (length_encode_le_iff 3 m.body.length).mp (by omega)
    rw [length_body] at this
    omega
  have hcont := continued_of_isPrefix (terminated_encode m.body.length)
    (List.take_prefix 4 _) (fun heq => by
      have := congrArg List.length heq
      rw [List.length_take] at this
      omega)
  refine ⟨m.header, (Varint.encode m.body.length).take 4,
    (Varint.encode m.body.length).drop 4 ++ m.body, ?_, ?_, hcont⟩
  · rw [encode_eq, List.cons_append, List.cons_append, ← List.append_assoc,
      List.take_append_drop]
  · rw [List.length_take]
    omega

/-- A topic that does not fit its length field comes back shorter. -/
theorem topic_ne_of_long {m : Message} (h : 65535 < m.topicLength) :
    Utf8.fromUtf8Lossy ((Utf8.encode m.topic ++ m.payload).take
      (m.topicLength % 65536)) ≠ m.topic := by
  intro heq
  have hlen : (Utf8.encode (Utf8.fromUtf8Lossy
      ((Utf8.encode m.topic ++ m.payload).take
        (m.topicLength % 65536)))).length = m.topicLength := by
    rw [heq, topicLength]
  have hle : m.topicLength % 65536 ≤ (Utf8.encode m.topic).length := by
    rw [topicLength]
    exact Nat.mod_le _ _
  rw [List.take_append_of_le_length hle, Utf8.fromUtf8Lossy, Utf8.encode,
    String.toList_ofList] at hlen
  have hcut := Utf8.length_encode_decodeLossy_take m.topic.toList
    (m.topicLength % 65536)
  rw [Utf8.encode] at hlen
  omega

end Message

theorem Decoder.push_new (chunk : List UInt8) :
    (Decoder.new.push chunk).1 = (wireFramer.run chunk).1.filterMap id := by
  rw [Decoder.push, show Decoder.new.buf = [] from rfl, List.nil_append,
    Decoder.drain_eq_run]

/-- Messages within the domain come back exactly, in any chunking; a message
outside it never comes back as itself. -/
theorem publish_roundTrip_iff_inDomain :
    (∀ (msgs : List Message) (chunks : List (List UInt8)),
      (∀ m ∈ msgs, m.InDomain) → chunks.flatten = msgs.flatMap Message.encode →
        Decoder.new.pushAll chunks = (msgs.map Message.packet, Decoder.new)) ∧
    (∀ m : Message, ¬ m.InDomain →
      m.packet ∉ (Decoder.new.push m.encode).1) := by
  constructor
  · intro msgs chunks hdomain hchunks
    obtain ⟨frames, hbytes, hpackets⟩ := Message.flatMap_encode_eq hdomain
    rw [Decoder.pushAll_frames frames (hchunks.trans hbytes), hpackets]
  · intro m hout hmem
    rw [Decoder.push_new] at hmem
    by_cases hbody : m.bodyLength ≤ 268435455
    · have htopic : 65535 < m.topicLength := by
        by_contra hle
        exact hout ⟨by omega, hbody⟩
      have hrun := wireFramer.run_bytes_append (m.wireFrame hbody) []
      change wireFramer.run ((m.wireFrame hbody).bytes ++ []) =
        ((m.wireFrame hbody).packet :: _, _) at hrun
      rw [List.append_nil, Message.wireFrame_bytes, run_new,
        m.wireFrame_packet hbody] at hrun
      rw [hrun] at hmem
      simp only [List.filterMap_cons, id_eq, List.filterMap_nil,
        List.mem_singleton, Message.packet, Packet.publish.injEq,
        Publish.mk.injEq] at hmem
      exact Message.topic_ne_of_long htopic hmem.1.symm
    · have hmal := Message.malformed_encode (by omega : 268435455 < m.bodyLength)
      rw [wireFramer.run_of_corrupt (wireFramer_next_malformed hmal)] at hmem
      simp at hmem

/-- A topic of `n` letters. -/
def letters (n : ℕ) : String := String.ofList (List.replicate n 'a')

theorem length_encode_letters (n : ℕ) : (Utf8.encode (letters n)).length = n := by
  have hone : 'a'.utf8Size = 1 := by decide
  simp [Utf8.encode, letters, List.length_flatMap, hone]

theorem inDomain_letters_iff (n k : ℕ) :
    (Message.mk (letters n) (List.replicate k 0) false).InDomain ↔
      n ≤ 65535 ∧ 2 + n + k ≤ 268435455 := by
  rw [Message.InDomain, Message.bodyLength, Message.topicLength,
    length_encode_letters, List.length_replicate]

/-- A retained message cut inside its topic comes back; one topic byte too many
and one body byte too many do not. -/
theorem publish_roundTrip_boundary :
    Decoder.new.pushAll [[0x31, 4, 0], [1, 0x61, 0x78]] =
        ([.publish { topic := "a", payload := [0x78], qos := 0, retain := true,
                     packetId := none }], Decoder.new) ∧
      ∀ m ∈ [Message.mk (letters 65536) (List.replicate 0 0) false,
          Message.mk (letters 0) (List.replicate 268435454 0) false],
        m.packet ∉ (Decoder.new.push m.encode).1 := by
  refine ⟨publish_roundTrip_iff_inDomain.1 [⟨"a", [0x78], true⟩]
    [[0x31, 4, 0], [1, 0x61, 0x78]] (by decide) (by decide +kernel), ?_⟩
  intro m hm
  apply publish_roundTrip_iff_inDomain.2
  simp only [List.mem_cons, List.not_mem_nil, or_false] at hm
  rcases hm with rfl | rfl
  · rw [inDomain_letters_iff]
    omega
  · rw [inDomain_letters_iff]
    omega

end Aquilo
