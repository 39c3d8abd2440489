/-
The streaming framer against the wire format: however a stream is cut into
chunks, the decoder returns the packets of its complete frames.
-/
import Aquilo.MqttWire
import Aquilo.StreamFraming

namespace Aquilo

open Varint

/-- A complete frame on the wire: a header byte, one to four length bytes, and
a body of that length. -/
structure WireFrame where
  header : UInt8
  lengthBytes : List UInt8
  body : List UInt8
  terminated : Terminated lengthBytes
  short : lengthBytes.length ≤ 4
  value_eq : value lengthBytes = body.length

namespace WireFrame

def bytes (f : WireFrame) : List UInt8 := f.header :: f.lengthBytes ++ f.body

/-- The packet of a frame, when its body decodes. -/
def packet (f : WireFrame) : Option Packet :=
  MqttWire.decodeBody (f.header >>> 4) (f.header &&& 0x0f) f.body

theorem length_bytes (f : WireFrame) :
    f.bytes.length = 1 + f.lengthBytes.length + f.body.length := by
  simp only [bytes, List.cons_append, List.length_cons, List.length_append]
  omega

theorem bytes_ne_nil (f : WireFrame) : f.bytes ≠ [] := by simp [bytes]

/-- The frame of a header and a body whose length fits four bytes. -/
def ofBody (header : UInt8) (body : List UInt8)
    (h : body.length ≤ 268435455) : WireFrame where
  header := header
  lengthBytes := Varint.encode body.length
  body := body
  terminated := terminated_encode _
  short := by
    rw [length_encode_le_iff 3]
    omega
  value_eq := value_encode _

theorem ofBody_bytes (header : UInt8) (body : List UInt8)
    (h : body.length ≤ 268435455) :
    (ofBody header body h).bytes = MqttWire.frame header body := rfl

end WireFrame

/-- A stream whose length field runs on over its fourth byte. -/
def Malformed (s : List UInt8) : Prop :=
  ∃ header field more, s = header :: field ++ more ∧ field.length = 4 ∧
    ∀ b ∈ field, Continued b

/-- A frame that has not arrived in full. -/
def Truncated (s : List UInt8) : Prop :=
  ∃ f : WireFrame, s <+: f.bytes ∧ s ≠ f.bytes

theorem Malformed.append {s : List UInt8} (h : Malformed s)
    (more : List UInt8) : Malformed (s ++ more) := by
  obtain ⟨header, field, rest, rfl, hlen, hall⟩ := h
  exact ⟨header, field, rest ++ more, by simp, hlen, hall⟩

namespace MqttWire

theorem readLength_terminated {field : List UInt8} (hterm : Terminated field)
    (more : List UInt8) (mult len : ℕ) {i : ℕ} (hi : i + field.length ≤ 5) :
    readLength (field ++ more) mult len i =
      .value (len + mult * value field) (i + field.length) := by
  induction field generalizing mult len i with
  | nil => exact absurd hterm id
  | cons b rest ih =>
      cases rest with
      | nil =>
          have hb : b &&& 0x80 = 0 := by simpa [Terminated, Continued] using hterm
          have hlen : len + (b &&& 0x7f).toNat * mult =
              len + mult * value [b] := by
            rw [value, value, Nat.mul_zero, Nat.add_zero, digit, Nat.mul_comm]
          rw [List.singleton_append, readLength, if_pos hb, hlen]
          rfl
      | cons c rest =>
          obtain ⟨hb, hrest⟩ := (terminated_cons (by simp)).mp hterm
          have hb : b &&& 0x80 ≠ 0 := hb
          simp only [List.length_cons] at hi ⊢
          have hroom : ¬ 5 ≤ i + 1 := by omega
          rw [List.cons_append, readLength, if_neg hb, if_neg hroom,
            ih hrest _ _ (by simp only [List.length_cons]; omega)]
          simp only [List.length_cons, value, digit, LengthField.value.injEq]
          exact ⟨by ring, by omega⟩

theorem readLength_corrupt {field : List UInt8}
    (hall : ∀ b ∈ field, Continued b) (hne : field ≠ []) (more : List UInt8)
    (mult len : ℕ) {i : ℕ} (hi : i + field.length = 5) :
    readLength (field ++ more) mult len i = .corrupt := by
  induction field generalizing mult len i with
  | nil => exact absurd rfl hne
  | cons b rest ih =>
      have hb : b &&& 0x80 ≠ 0 := hall b (by simp)
      rw [List.cons_append, readLength, if_neg hb]
      simp only [List.length_cons] at hi
      cases rest with
      | nil => rw [if_pos (by simp only [List.length_nil] at hi; omega)]
      | cons c rest =>
          rw [if_neg (by simp only [List.length_cons] at hi; omega)]
          exact ih (fun d hd => hall d (List.mem_cons_of_mem b hd)) (by simp)
            _ _ (by omega)

theorem readLength_incomplete {field : List UInt8}
    (hall : ∀ b ∈ field, Continued b) (mult len : ℕ) {i : ℕ}
    (hi : i + field.length < 5) :
    readLength field mult len i = .incomplete := by
  induction field generalizing mult len i with
  | nil => rfl
  | cons b rest ih =>
      have hb : b &&& 0x80 ≠ 0 := hall b (by simp)
      simp only [List.length_cons] at hi
      rw [readLength, if_neg hb, if_neg (by omega)]
      exact ih (fun d hd => hall d (List.mem_cons_of_mem b hd)) _ _ (by omega)

theorem nextFrame_of_readLength {b₀ : UInt8} {rest : List UInt8}
    (hne : rest ≠ []) :
    nextFrame (b₀ :: rest) =
      match readLength rest 1 0 1 with
      | .incomplete => .incomplete
      | .corrupt => .corrupt
      | .value len i =>
          if (b₀ :: rest).length < i + len then .incomplete
          else .packet (decodeBody (b₀ >>> 4) (b₀ &&& 0x0f)
            (((b₀ :: rest).take (i + len)).drop i)) (i + len) := by
  cases rest with
  | nil => contradiction
  | cons b₁ rest => rfl

theorem nextFrame_of_terminated (b₀ : UInt8) {field : List UInt8}
    (hterm : Terminated field) (hshort : field.length ≤ 4)
    (more : List UInt8) :
    nextFrame (b₀ :: field ++ more) =
      if more.length < value field then .incomplete
      else .packet (decodeBody (b₀ >>> 4) (b₀ &&& 0x0f)
        (more.take (value field))) (1 + field.length + value field) := by
  have hne : field ++ more ≠ [] := by simp [hterm.ne_nil]
  rw [List.cons_append, nextFrame_of_readLength hne,
    readLength_terminated hterm more 1 0 (by omega)]
  have hbody : ((b₀ :: (field ++ more)).take
      (1 + field.length + value field)).drop (1 + field.length) =
      more.take (value field) := by
    rw [Nat.add_comm 1, List.drop_take, List.drop_succ_cons, List.drop_left]
    congr 1
    omega
  simp only [Nat.zero_add, Nat.one_mul, hbody, List.length_cons,
    List.length_append]
  congr 1
  simp only [eq_iff_iff]
  omega

theorem nextFrame_bytes_append (f : WireFrame) (more : List UInt8) :
    nextFrame (f.bytes ++ more) = .packet f.packet f.bytes.length := by
  have hlen : ¬ (f.body ++ more).length < value f.lengthBytes := by
    rw [f.value_eq, List.length_append]
    omega
  rw [WireFrame.bytes, List.append_assoc,
    nextFrame_of_terminated f.header f.terminated f.short, if_neg hlen,
    f.value_eq, List.take_left, ← f.length_bytes]
  rfl

theorem nextFrame_malformed {s : List UInt8} (h : Malformed s) :
    nextFrame s = .corrupt := by
  obtain ⟨header, field, more, rfl, hlen, hall⟩ := h
  have hne : field ≠ [] := by
    rintro rfl
    simp at hlen
  rw [List.cons_append, nextFrame_of_readLength (by simp [hne]),
    readLength_corrupt hall hne more 1 0 (by omega)]

/-- Every buffer starts with a complete frame, or is part of one, or has a
malformed length field. -/
theorem nextFrame_cases (buf : List UInt8) :
    (∃ (f : WireFrame) (more : List UInt8), buf = f.bytes ++ more) ∨
      (Truncated buf ∧ nextFrame buf = .incomplete) ∨ Malformed buf := by
  cases buf with
  | nil =>
      have hzero : Terminated ([] ++ [0]) :=
        terminated_append_zero fun _ h => absurd h List.not_mem_nil
      exact Or.inr (Or.inl ⟨⟨⟨0, [0], [], hzero, by decide, by decide⟩,
        List.nil_prefix, by simp [WireFrame.bytes]⟩, rfl⟩)
  | cons b₀ rest =>
      rcases head_cases 4 rest with ⟨field, more, rfl, hterm, hshort⟩ |
        ⟨field, more, rfl, hlen, hall⟩ | ⟨hlen, hall⟩
      · by_cases hfits : value field ≤ more.length
        · refine Or.inl ⟨⟨b₀, field, more.take (value field), hterm, hshort, ?_⟩,
            more.drop (value field), ?_⟩
          · rw [List.length_take, Nat.min_eq_left hfits]
          · simp [WireFrame.bytes, List.take_append_drop]
        · refine Or.inr (Or.inl ⟨⟨⟨b₀, field,
            more ++ List.replicate (value field - more.length) 0, hterm, hshort,
            ?_⟩, ?_, ?_⟩, ?_⟩)
          · rw [List.length_append, List.length_replicate]
            omega
          · exact ⟨List.replicate (value field - more.length) 0,
              by simp [WireFrame.bytes]⟩
          · intro heq
            have hlen := congrArg List.length heq
            simp only [WireFrame.bytes, List.cons_append, List.length_cons,
              List.length_append, List.length_replicate] at hlen
            omega
          · rw [← List.cons_append, nextFrame_of_terminated b₀ hterm hshort,
              if_pos (by omega)]
      · exact Or.inr (Or.inr ⟨b₀, field, more, rfl, hlen, hall⟩)
      · refine Or.inr (Or.inl ⟨⟨⟨b₀, rest ++ [0],
          List.replicate (value (rest ++ [0])) 0, terminated_append_zero hall,
          by simpa using hlen, by simp⟩, ?_, ?_⟩, ?_⟩)
        · exact ⟨0 :: List.replicate (value (rest ++ [0])) 0,
            by simp [WireFrame.bytes]⟩
        · intro heq
          have hlen := congrArg List.length heq
          simp only [WireFrame.bytes, List.cons_append, List.length_cons,
            List.length_append] at hlen
          omega
        · cases rest with
          | nil => rfl
          | cons b₁ rest =>
              rw [nextFrame_of_readLength (by simp),
                readLength_incomplete hall 1 0 (by omega)]

theorem nextFrame_truncated {s : List UInt8} (h : Truncated s) :
    nextFrame s = .incomplete := by
  obtain ⟨f, ⟨rest, hf⟩, hne⟩ := h
  have hwhole : nextFrame (s ++ rest) = .packet f.packet f.bytes.length := by
    rw [hf]
    simpa using nextFrame_bytes_append f []
  rcases nextFrame_cases s with ⟨g, more, rfl⟩ | ⟨-, hs⟩ | hmal
  · rw [List.append_assoc, nextFrame_bytes_append] at hwhole
    injection hwhole with _ hlen
    have hempty : more = [] ∧ rest = [] := by
      have hlens := congrArg List.length hf
      simp only [List.length_append] at hlens
      exact ⟨List.length_eq_zero_iff.mp (by omega),
        List.length_eq_zero_iff.mp (by omega)⟩
    rw [hempty.2, List.append_nil] at hf
    exact absurd hf hne
  · exact hs
  · rw [nextFrame_malformed (hmal.append rest)] at hwhole
    cases hwhole

end MqttWire

open StreamFraming

/-- The head of a buffer in the vocabulary of stream framing. -/
def Frame.next : Frame → Next (Option Packet)
  | .packet pkt total => .frame pkt total
  | .incomplete => .incomplete
  | .corrupt => .corrupt

/-- The packet codec as a framer of wire frames. -/
def wireFramer : Framer UInt8 WireFrame (Option Packet) where
  bytes := WireFrame.bytes
  item := WireFrame.packet
  next buf := (MqttWire.nextFrame buf).next
  bytes_ne_nil := WireFrame.bytes_ne_nil
  next_bytes_append f more := by
    rw [MqttWire.nextFrame_bytes_append]
    rfl
  exists_of_frame := by
    intro buf x n h
    rcases MqttWire.nextFrame_cases buf with hframe | ⟨-, hinc⟩ | hmal
    · exact hframe
    · rw [hinc] at h
      cases h
    · rw [MqttWire.nextFrame_malformed hmal] at h
      cases h
  corrupt_append := by
    intro buf more h
    rcases MqttWire.nextFrame_cases buf with ⟨f, rest, rfl⟩ | ⟨-, hinc⟩ | hmal
    · rw [MqttWire.nextFrame_bytes_append] at h
      cases h
    · rw [hinc] at h
      cases h
    · rw [MqttWire.nextFrame_malformed (hmal.append more)]
      rfl

theorem wireFramer_next_truncated {s : List UInt8} (h : Truncated s) :
    wireFramer.next s = .incomplete := by
  change (MqttWire.nextFrame s).next = _
  rw [MqttWire.nextFrame_truncated h]
  rfl

theorem wireFramer_next_malformed {s : List UInt8} (h : Malformed s) :
    wireFramer.next s = .corrupt := by
  change (MqttWire.nextFrame s).next = _
  rw [MqttWire.nextFrame_malformed h]
  rfl

namespace Decoder

theorem drain_of_packet {buf : List UInt8} {pkt : Option Packet} {total : ℕ}
    (h : MqttWire.nextFrame buf = .packet pkt total) :
    drain buf = (pkt.toList ++ (drain (buf.drop total)).1,
      (drain (buf.drop total)).2) := by
  rw [drain]
  split <;> rename_i heq
  · rw [h] at heq
    injection heq with hpkt htotal
    subst hpkt htotal
    rfl
  · simp [h] at heq
  · simp [h] at heq

theorem drain_of_incomplete {buf : List UInt8}
    (h : MqttWire.nextFrame buf = .incomplete) : drain buf = ([], buf) := by
  rw [drain]
  split <;> rename_i heq
  · simp [h] at heq
  · rfl
  · simp [h] at heq

theorem drain_of_corrupt {buf : List UInt8}
    (h : MqttWire.nextFrame buf = .corrupt) : drain buf = ([], []) := by
  rw [drain]
  split <;> rename_i heq
  · simp [h] at heq
  · simp [h] at heq
  · rfl

/-- The source's loop is the framer's run. -/
theorem drain_eq_run (buf : List UInt8) :
    drain buf = ((wireFramer.run buf).1.filterMap id,
      (wireFramer.run buf).2.kept) := by
  induction buf using drain.induct with
  | case1 buf pkt total hnext ih =>
      have hframe : wireFramer.next buf = .frame pkt total :=
        congrArg Frame.next hnext
      rw [drain_of_packet hnext, wireFramer.run_of_frame hframe, ih]
      cases pkt <;> rfl
  | case2 buf hnext =>
      have hinc : wireFramer.next buf = .incomplete := congrArg Frame.next hnext
      rw [drain_of_incomplete hnext, wireFramer.run_of_incomplete hinc]
      rfl
  | case3 buf hnext =>
      have hcor : wireFramer.next buf = .corrupt := congrArg Frame.next hnext
      rw [drain_of_corrupt hnext, wireFramer.run_of_corrupt hcor]
      rfl

/-- Pushing chunks is feeding them to the framer; frames whose body does not
decode drop out. -/
theorem pushAll_eq_feedAll (d : Decoder) (chunks : List (List UInt8)) :
    d.pushAll chunks = ((wireFramer.feedAll d.buf chunks).1.filterMap id,
      ⟨(wireFramer.feedAll d.buf chunks).2⟩) := by
  induction chunks generalizing d with
  | nil => rfl
  | cons chunk chunks ih =>
      simp only [pushAll, push, Framer.feedAll, Framer.feed, drain_eq_run, ih,
        List.filterMap_append]

end Decoder

/-- The frames of a stream and what follows the last of them. -/
structure Framed (stream : List UInt8) (frames : List WireFrame)
    (tail : List UInt8) : Prop where
  eq : stream = frames.flatMap WireFrame.bytes ++ tail
  stuck : Truncated tail ∨ Malformed tail

/-- Framing the stream runs into a malformed length field. -/
def MeetsMalformed (stream : List UInt8) : Prop :=
  ∃ frames tail, Framed stream frames tail ∧ Malformed tail

theorem exists_framed (stream : List UInt8) :
    ∃ frames tail, Framed stream frames tail := by
  obtain ⟨frames, tail, heq, hstuck⟩ := wireFramer.exists_framing stream
  refine ⟨frames, tail, heq, ?_⟩
  rcases MqttWire.nextFrame_cases tail with ⟨f, rest, rfl⟩ | ⟨htail, -⟩ | hmal
  · have hnext := wireFramer.next_bytes_append f rest
    rcases hstuck with h | h
    · rw [show wireFramer.bytes f = f.bytes from rfl, h] at hnext
      cases hnext
    · rw [show wireFramer.bytes f = f.bytes from rfl, h] at hnext
      cases hnext
  · exact Or.inl htail
  · exact Or.inr hmal

theorem WireFrame.eq_of_append_eq {f g : WireFrame} {more more' : List UInt8}
    (h : f.bytes ++ more = g.bytes ++ more') : f = g ∧ more = more' := by
  have hlen : f.bytes.length = g.bytes.length := by
    have hnext := MqttWire.nextFrame_bytes_append f more
    rw [h, MqttWire.nextFrame_bytes_append] at hnext
    injection hnext with _ hlen
    exact hlen.symm
  obtain ⟨hbytes, hmore⟩ := List.append_inj h hlen
  refine ⟨?_, hmore⟩
  obtain ⟨hheader, hrest⟩ := List.cons.inj hbytes
  have hfield := f.terminated.eq_of_append_eq g.terminated hrest
  rw [hfield] at hrest
  have hbody := List.append_cancel_left hrest
  cases f
  cases g
  simp_all

theorem not_stuck_bytes_append (f : WireFrame) (more : List UInt8) :
    ¬ (Truncated (f.bytes ++ more) ∨ Malformed (f.bytes ++ more)) := by
  have hnext := MqttWire.nextFrame_bytes_append f more
  rintro (h | h)
  · rw [MqttWire.nextFrame_truncated h] at hnext
    cases hnext
  · rw [MqttWire.nextFrame_malformed h] at hnext
    cases hnext

/-- A stream has one framing. -/
theorem Framed.unique {stream tail tail' : List UInt8}
    {frames frames' : List WireFrame} (h : Framed stream frames tail)
    (h' : Framed stream frames' tail') : frames = frames' ∧ tail = tail' := by
  induction frames generalizing stream frames' with
  | nil =>
      cases frames' with
      | nil => exact ⟨rfl, h.eq.symm.trans h'.eq⟩
      | cons g rest =>
          have heq := h.eq.symm.trans h'.eq
          rw [List.flatMap_nil, List.nil_append, List.flatMap_cons,
            List.append_assoc] at heq
          exact absurd (heq ▸ h.stuck) (not_stuck_bytes_append g _)
  | cons f rest ih =>
      have heq := h.eq.symm.trans h'.eq
      cases frames' with
      | nil =>
          rw [List.flatMap_nil, List.nil_append, List.flatMap_cons,
            List.append_assoc] at heq
          exact absurd (heq ▸ h'.stuck) (not_stuck_bytes_append f _)
      | cons g rest' =>
          rw [List.flatMap_cons, List.flatMap_cons, List.append_assoc,
            List.append_assoc] at heq
          obtain ⟨rfl, hmore⟩ := WireFrame.eq_of_append_eq heq
          obtain ⟨rfl, htail⟩ := ih ⟨rfl, h.stuck⟩ ⟨hmore, h'.stuck⟩
          exact ⟨rfl, htail⟩

section Run

variable {stream tail : List UInt8} {frames : List WireFrame}

theorem Framed.run_truncated (h : Framed stream frames tail)
    (htail : Truncated tail) :
    wireFramer.run stream =
      (frames.map WireFrame.packet, .waiting tail) := by
  have hnext := wireFramer_next_truncated htail
  exact Framer.Framing.run_waiting ⟨h.eq, Or.inl hnext⟩ hnext

theorem Framed.run_malformed (h : Framed stream frames tail)
    (htail : Malformed tail) :
    wireFramer.run stream =
      (frames.map WireFrame.packet, .broken tail) := by
  have hnext := wireFramer_next_malformed htail
  exact Framer.Framing.run_broken ⟨h.eq, Or.inr hnext⟩ hnext

theorem run_new : wireFramer.run [] = ([], .waiting []) :=
  wireFramer.run_of_incomplete rfl

theorem meetsMalformed_iff_run_broken :
    MeetsMalformed stream ↔
      ∃ items rest, wireFramer.run stream = (items, .broken rest) := by
  constructor
  · rintro ⟨frames, tail, hframed, hmal⟩
    exact ⟨_, _, hframed.run_malformed hmal⟩
  · rintro ⟨items, rest, hrun⟩
    obtain ⟨frames, tail, hframed⟩ := exists_framed stream
    rcases hframed.stuck with htail | htail
    · rw [hframed.run_truncated htail] at hrun
      cases hrun
    · exact ⟨frames, tail, hframed, htail⟩

end Run

/-- Frames that arrive in full are returned in order, and nothing is kept. -/
theorem Decoder.pushAll_frames (frames : List WireFrame)
    {chunks : List (List UInt8)}
    (h : chunks.flatten = frames.flatMap WireFrame.bytes) :
    Decoder.new.pushAll chunks =
      (frames.filterMap WireFrame.packet, Decoder.new) := by
  have hrun : wireFramer.run ([] ++ chunks.flatten) =
      (frames.map WireFrame.packet, .waiting []) := by
    have happend := wireFramer.run_flatMap_append frames []
    rw [run_new, List.append_nil, List.append_nil] at happend
    rw [List.nil_append, h]
    exact happend
  rw [Decoder.pushAll_eq_feedAll, show Decoder.new.buf = [] from rfl,
    wireFramer.feedAll_waiting run_new hrun, List.filterMap_map]
  rfl

/-- However a stream is cut into chunks, a fresh decoder returns the packets of
its complete frames in order, skipping bodies that do not decode.  Without a
malformed length field it keeps the unfinished frame; with one, everything in
front of it has been returned by the push that meets it. -/
theorem pushAll_eq_oneShot_framing (chunks : List (List UInt8)) :
    ∃ frames tail, Framed chunks.flatten frames tail ∧
      ((Truncated tail ∧ ¬ MeetsMalformed chunks.flatten ∧
        Decoder.new.pushAll chunks =
          (frames.filterMap WireFrame.packet, ⟨tail⟩)) ∨
      (Malformed tail ∧ ∃ before chunk after,
        chunks = before ++ chunk :: after ∧
        ¬ MeetsMalformed before.flatten ∧
        MeetsMalformed (before ++ [chunk]).flatten ∧
        Decoder.new.pushAll (before ++ [chunk]) =
          (frames.filterMap WireFrame.packet, ⟨[]⟩))) := by
  obtain ⟨frames, tail, hframed⟩ := exists_framed chunks.flatten
  have hitems : (frames.map WireFrame.packet).filterMap id =
      frames.filterMap WireFrame.packet := by
    rw [List.filterMap_map]
    rfl
  refine ⟨frames, tail, hframed, ?_⟩
  rcases hframed.stuck with htail | htail
  · have hrun := hframed.run_truncated htail
    refine Or.inl ⟨htail, ?_, ?_⟩
    · rw [meetsMalformed_iff_run_broken, hrun]
      rintro ⟨items, rest, heq⟩
      cases heq
    · rw [Decoder.pushAll_eq_feedAll, show Decoder.new.buf = [] from rfl,
        wireFramer.feedAll_waiting run_new hrun, hitems]
  · have hrun := hframed.run_malformed htail
    obtain ⟨before, chunk, after, heq, ⟨found, kept, hbefore⟩, ⟨left, hmet⟩,
      hfeed⟩ := wireFramer.feedAll_broken run_new hrun
    rw [List.nil_append] at hbefore hmet
    refine Or.inr ⟨htail, before, chunk, after, heq, ?_, ?_, ?_⟩
    · rw [meetsMalformed_iff_run_broken, hbefore]
      rintro ⟨items, rest, heq⟩
      cases heq
    · exact meetsMalformed_iff_run_broken.mpr ⟨_, _, hmet⟩
    · rw [Decoder.pushAll_eq_feedAll, show Decoder.new.buf = [] from rfl, hfeed,
        hitems]

end Aquilo
