/-
Corrupt streams: after a malformed length field the buffer is dropped, so where
framing resumes depends on where a chunk ends.
-/
import Aquilo.MqttFraming

namespace Aquilo

open Varint

/-- A stream of frames followed by a malformed length field. -/
structure CorruptStream where
  frames : List WireFrame
  header : UInt8
  field : List UInt8
  /-- What follows the malformed field. -/
  more : List UInt8
  four : field.length = 4
  continued : ∀ b ∈ field, Continued b

namespace CorruptStream

def tail (s : CorruptStream) : List UInt8 := s.header :: s.field ++ s.more

def bytes (s : CorruptStream) : List UInt8 :=
  s.frames.flatMap WireFrame.bytes ++ s.tail

/-- The packets in front of the malformed field. -/
def packets (s : CorruptStream) : List Packet :=
  s.frames.filterMap WireFrame.packet

theorem malformed_tail (s : CorruptStream) : Malformed s.tail :=
  ⟨s.header, s.field, s.more, rfl, s.four, s.continued⟩

theorem framed (s : CorruptStream) : Framed s.bytes s.frames s.tail :=
  ⟨rfl, Or.inr s.malformed_tail⟩

/-- A prefix of the stream that already meets the field leaves a suffix of what
follows it. -/
theorem suffix_of_meetsMalformed {s : CorruptStream} {front back : List UInt8}
    (heq : front ++ back = s.bytes) (h : MeetsMalformed front) :
    back <:+ s.more := by
  obtain ⟨frames, tail, hfront, header, field, more, rfl, hlen, hall⟩ := h
  have hmal : Malformed (header :: field ++ more) :=
    ⟨header, field, more, rfl, hlen, hall⟩
  have hframed : Framed s.bytes frames (header :: field ++ more ++ back) := by
    refine ⟨?_, Or.inr (hmal.append back)⟩
    rw [← heq, hfront.eq, List.append_assoc]
  obtain ⟨-, htail⟩ := s.framed.unique hframed
  rw [tail, List.cons_append, List.cons_append, List.cons_append,
    List.append_assoc] at htail
  have hrest := (List.cons.inj htail).2
  have hmore := List.append_inj_right hrest (s.four.trans hlen.symm)
  exact ⟨more, hmore.symm⟩

/-- Whatever the chunks, the packets in front of the field come first, and the
others are those of frames standing behind it. -/
theorem exists_pushAll_eq (s : CorruptStream) {chunks : List (List UInt8)}
    (h : chunks.flatten = s.bytes) :
    ∃ phantoms, (Decoder.new.pushAll chunks).1 = s.packets ++ phantoms ∧
      ∀ p ∈ phantoms, ∃ f : WireFrame,
        f.bytes <:+: s.more ∧ f.packet = some p := by
  have hrun : wireFramer.run ([] ++ chunks.flatten) =
      (s.frames.map WireFrame.packet, .broken s.tail) := by
    rw [List.nil_append, h]
    exact s.framed.run_malformed s.malformed_tail
  obtain ⟨before, chunk, after, rfl, -, ⟨left, hmet⟩, hfeed⟩ :=
    wireFramer.feedAll_broken run_new hrun
  have hbehind : after.flatten <:+ s.more := by
    have hfront : MeetsMalformed (before ++ [chunk]).flatten :=
      meetsMalformed_iff_run_broken.mpr ⟨_, _, hmet⟩
    refine suffix_of_meetsMalformed ?_ hfront
    rw [← h, ← List.flatten_append, List.append_assoc]
    rfl
  refine ⟨(wireFramer.feedAll [] after).1.filterMap id, ?_, ?_⟩
  · have hsplit : before ++ chunk :: after = (before ++ [chunk]) ++ after := by
      rw [List.append_assoc]
      rfl
    rw [Decoder.pushAll_eq_feedAll, show Decoder.new.buf = [] from rfl, hsplit,
      wireFramer.feedAll_append, hfeed, List.filterMap_append,
      List.filterMap_map]
    rfl
  · intro p hp
    obtain ⟨x, hx, rfl⟩ := List.mem_filterMap.mp hp
    obtain ⟨f, hf, hinfix⟩ := wireFramer.exists_infix_of_mem_feedAll hx
    exact ⟨f, hinfix.trans hbehind.isInfix, hf⟩

/-- In one chunk nothing comes out behind the field. -/
theorem pushAll_whole (s : CorruptStream) :
    (Decoder.new.pushAll [s.bytes]).1 = s.packets := by
  have hrun := s.framed.run_malformed s.malformed_tail
  rw [Decoder.pushAll_eq_feedAll]
  change ((wireFramer.run s.bytes).1 ++ []).filterMap id = _
  rw [hrun, List.append_nil, List.filterMap_map]
  rfl

/-- A chunk that starts with a frame behind the field brings its packet out. -/
theorem pushAll_cut {s : CorruptStream} {f : WireFrame} {p : Packet}
    (hp : f.packet = some p) {front back : List UInt8}
    (hmore : front ++ f.bytes ++ back = s.more) :
    ∃ chunks : List (List UInt8), chunks.flatten = s.bytes ∧
      ∃ others, (Decoder.new.pushAll chunks).1 = s.packets ++ p :: others := by
  let cut : CorruptStream := { s with more := front }
  have hfirst := cut.framed.run_malformed cut.malformed_tail
  refine ⟨[cut.bytes, f.bytes ++ back], ?_,
    ((wireFramer.run back).1 ++ []).filterMap id, ?_⟩
  · rw [List.append_assoc] at hmore
    simp [cut, bytes, tail, ← hmore]
  · have hsecond := wireFramer.run_bytes_append f back
    rw [Decoder.pushAll_eq_feedAll]
    change ((wireFramer.run cut.bytes).1 ++
      ((wireFramer.run ((wireFramer.run cut.bytes).2.kept ++
        (f.bytes ++ back))).1 ++ [])).filterMap id = _
    rw [hfirst]
    change (s.frames.map WireFrame.packet ++
      ((wireFramer.run (wireFramer.bytes f ++ back)).1 ++ [])).filterMap id = _
    rw [hsecond, List.filterMap_append, List.filterMap_map]
    change s.packets ++ ((f.packet :: _) ++ []).filterMap id = _
    rw [hp]
    rfl

end CorruptStream

/-- A corrupt stream gives the same packets in any chunks exactly when no frame
that decodes stands behind its malformed length field. -/
theorem segmentation_irrelevant_iff (s : CorruptStream) :
    (∀ chunks chunks' : List (List UInt8), chunks.flatten = s.bytes →
        chunks'.flatten = s.bytes →
        (Decoder.new.pushAll chunks).1 = (Decoder.new.pushAll chunks').1) ↔
      ∀ f : WireFrame, f.bytes <:+: s.more → f.packet = none := by
  constructor
  · rintro hsame f ⟨front, back, hmore⟩
    by_contra hp
    obtain ⟨p, hp⟩ := Option.ne_none_iff_exists'.mp hp
    obtain ⟨chunks, hchunks, others, hout⟩ := CorruptStream.pushAll_cut hp hmore
    have hwhole := hsame [s.bytes] chunks (by simp) hchunks
    rw [s.pushAll_whole, hout] at hwhole
    simp at hwhole
  · intro hnone
    have hpackets : ∀ chunks : List (List UInt8), chunks.flatten = s.bytes →
        (Decoder.new.pushAll chunks).1 = s.packets := by
      intro chunks hchunks
      obtain ⟨phantoms, hout, hphantoms⟩ := s.exists_pushAll_eq hchunks
      cases phantoms with
      | nil => rwa [List.append_nil] at hout
      | cons p others =>
          obtain ⟨f, hinfix, hp⟩ := hphantoms p List.mem_cons_self
          rw [hnone f hinfix] at hp
          cases hp
    intro chunks chunks' hchunks hchunks'
    rw [hpackets chunks hchunks, hpackets chunks' hchunks']

/-- A malformed length field followed by the two bytes of a PINGREQ. -/
def corruptPing : CorruptStream where
  frames := []
  header := 0x10
  field := [0xff, 0xff, 0xff, 0xff]
  more := [0xc0, 0x00]
  four := rfl
  continued := by
    intro b hb
    obtain rfl : b = 0xff := by simpa using hb
    decide

/-- In one chunk nothing comes out of it; with a cut in front of the last two
bytes the PINGREQ does. -/
theorem phantomPingReq :
    let whole : List (List UInt8) := [[0x10, 0xff, 0xff, 0xff, 0xff, 0xc0, 0x00]]
    let cut : List (List UInt8) := [[0x10, 0xff, 0xff, 0xff, 0xff], [0xc0, 0x00]]
    whole.flatten = corruptPing.bytes ∧ cut.flatten = corruptPing.bytes ∧
      (Decoder.new.pushAll whole).1 = [] ∧
      (Decoder.new.pushAll cut).1 = [.pingReq] := by
  have hwhole : MqttWire.nextFrame
      [0x10, 0xff, 0xff, 0xff, 0xff, 0xc0, 0x00] = .corrupt := by decide
  have hfield : MqttWire.nextFrame [0x10, 0xff, 0xff, 0xff, 0xff] = .corrupt := by
    decide
  have hping : MqttWire.nextFrame [0xc0, 0x00] = .packet (some .pingReq) 2 := by
    decide
  have hend : MqttWire.nextFrame [] = .incomplete := by decide
  refine ⟨rfl, rfl, ?_, ?_⟩
  · simp [Decoder.pushAll, Decoder.push, Decoder.new,
      Decoder.drain_of_corrupt hwhole]
  · simp [Decoder.pushAll, Decoder.push, Decoder.new,
      Decoder.drain_of_corrupt hfield, Decoder.drain_of_packet hping,
      Decoder.drain_of_incomplete hend]

end Aquilo
