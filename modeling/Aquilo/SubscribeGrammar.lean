/-
SUBSCRIBE against its grammar.  The topic loop skips the byte of the requested
quality unseen, so besides the well-formed bodies it takes those whose very last
byte, the quality of the last topic, is missing.
-/
import Aquilo.ConnectRoundTrip
import Aquilo.ObserveReplies

namespace Aquilo

open StreamFraming

namespace MqttWire

/-- Two bytes are the length of a byte string exactly when they stand in front
of it. -/
theorem prefixed_eq_iff {hi lo : UInt8} {bytes : List UInt8}
    (hbytes : bytes.length ≤ 65535) :
    prefixed bytes = hi :: lo :: bytes ↔ pair hi lo = bytes.length := by
  have hlength : pair (UInt8.ofNat (bytes.length >>> 8))
      (UInt8.ofNat bytes.length) = bytes.length := by
    rw [pair_ofNat, Nat.mod_eq_of_lt (by omega)]
  rw [prefixed]
  constructor
  · intro h
    injection h with hhi htail
    injection htail with hlo
    rw [← hhi, ← hlo, hlength]
  · intro h
    obtain ⟨hhi, hlo⟩ := pair_inj (hlength.trans h.symm)
    rw [hhi, hlo]

/-- A byte string is read exactly where it stands behind its length. -/
theorem readBytes_eq_some_iff {b bytes : List UInt8} {off stop : ℕ} :
    readBytes b off = some (bytes, stop) ↔
      bytes.length ≤ 65535 ∧ stop = off + (prefixed bytes).length ∧
        b.drop off = prefixed bytes ++ b.drop stop := by
  constructor
  · intro h
    rw [readBytes] at h
    simp only [Option.bind_eq_bind, Option.bind_eq_some_iff,
      Option.ite_none_left_eq_some, Option.some.injEq, Prod.mk.injEq] at h
    obtain ⟨hi, hhi, lo, hlo, hfits, rfl, rfl⟩ := h
    obtain ⟨hofflt, hhi⟩ := List.getElem?_eq_some_iff.mp hhi
    obtain ⟨hlolt, hlo⟩ := List.getElem?_eq_some_iff.mp hlo
    have hlength : ((b.take (off + 2 + pair hi lo)).drop (off + 2)).length =
        pair hi lo := by
      rw [List.length_drop, List.length_take]
      omega
    have hle := pair_le hi lo
    have hprefixed := (prefixed_eq_iff (hlength.trans_le hle)).mpr hlength.symm
    have hrest : (b.drop (off + 2)).drop (pair hi lo) =
        b.drop (off + 2 + pair hi lo) := List.drop_drop
    refine ⟨by omega, by rw [length_prefixed, hlength]; omega, ?_⟩
    rw [hprefixed, List.drop_eq_getElem_cons hofflt,
      List.drop_eq_getElem_cons hlolt, hhi, hlo, List.cons_append,
      List.cons_append, List.drop_take, Nat.add_sub_cancel_left, ← hrest,
      List.take_append_drop]
  · rintro ⟨hbytes, rfl, hdrop⟩
    have hprefixed := length_prefixed bytes
    have hlengths := congrArg List.length hdrop
    rw [List.length_drop, List.length_append, List.length_drop] at hlengths
    have hoff : off ≤ b.length := by omega
    have hstop : off + (prefixed bytes).length ≤ b.length := by omega
    have hwhole : b = b.take off ++ prefixed bytes ++
        b.drop (off + (prefixed bytes).length) := by
      rw [List.append_assoc, ← hdrop, List.take_append_drop]
    have hread := readBytes_take hwhole hbytes le_rfl
    have hend : (b.take off ++ prefixed bytes).length =
        off + (prefixed bytes).length := by
      rw [List.length_append, List.length_take_of_le hoff]
    rwa [List.take_length, List.length_take_of_le hoff, hend,
      arrived_of_le hstop] at hread

theorem readBytes_prefixed {bytes : List UInt8} (hbytes : bytes.length ≤ 65535)
    (more : List UInt8) :
    readBytes (prefixed bytes ++ more) 0 =
      some (bytes, 0 + (prefixed bytes).length) := by
  refine readBytes_eq_some_iff.mpr ⟨hbytes, rfl, ?_⟩
  rw [Nat.zero_add, List.drop_left]
  rfl

theorem prefixed_append_inj {bytes bytes' more more' : List UInt8}
    (hbytes : bytes.length ≤ 65535) (hbytes' : bytes'.length ≤ 65535)
    (h : prefixed bytes ++ more = prefixed bytes' ++ more') :
    bytes = bytes' ∧ more = more' := by
  have hread := readBytes_prefixed hbytes more
  rw [h, readBytes_prefixed hbytes' more'] at hread
  injection hread with hread
  injection hread with hbytes
  subst hbytes
  exact ⟨rfl, List.append_cancel_left h⟩

/-- A string standing behind its length is read, and the rest is left. -/
theorem readStr_of_drop {b bytes more : List UInt8} {off : ℕ}
    (hbytes : bytes.length ≤ 65535) (h : b.drop off = prefixed bytes ++ more) :
    readStr b off =
        some (Utf8.fromUtf8Lossy bytes, off + (prefixed bytes).length) ∧
      b.drop (off + (prefixed bytes).length) = more := by
  have hmore : b.drop (off + (prefixed bytes).length) = more := by
    rw [← List.drop_drop, h, List.drop_left]
  have hread : readBytes b off =
      some (bytes, off + (prefixed bytes).length) :=
    readBytes_eq_some_iff.mpr ⟨hbytes, rfl, by rw [hmore, h]⟩
  rw [readStr, hread]
  exact ⟨rfl, hmore⟩

end MqttWire

open MqttWire

/-- An entry of a SUBSCRIBE: the bytes of a topic and the requested quality. -/
structure SubscribeEntry where
  topic : List UInt8
  qos : UInt8
  fits : topic.length ≤ 65535

namespace SubscribeEntry

def bytes (e : SubscribeEntry) : List UInt8 := prefixed e.topic ++ [e.qos]

def text (e : SubscribeEntry) : String := Utf8.fromUtf8Lossy e.topic

theorem length_bytes (e : SubscribeEntry) :
    e.bytes.length = e.topic.length + 3 := by
  rw [bytes, List.length_append, length_prefixed, List.length_singleton]

theorem bytes_ne_nil (e : SubscribeEntry) : e.bytes ≠ [] := by
  rw [← List.length_pos_iff, length_bytes]
  omega

theorem flatMap_bytes_ne_nil {entries : List SubscribeEntry}
    (h : entries ≠ []) : entries.flatMap bytes ≠ [] := by
  obtain ⟨e, entries, rfl⟩ := List.exists_cons_of_ne_nil h
  simp [e.bytes_ne_nil]

theorem selfDelimiting_bytes : SelfDelimiting bytes := by
  intro a b more more' h
  rw [bytes, bytes, List.append_assoc, List.append_assoc] at h
  obtain ⟨htopic, hrest⟩ := prefixed_append_inj a.fits b.fits h
  obtain ⟨hqos, hmore⟩ := List.cons.inj hrest
  cases a
  cases b
  cases htopic
  cases hqos
  exact ⟨rfl, hmore⟩

/-- What the topic loop takes for these entries: all their bytes, or all but the
very last. -/
def TakenFor (rest : List UInt8) (entries : List SubscribeEntry) : Prop :=
  rest = entries.flatMap bytes ∨
    entries ≠ [] ∧ rest = (entries.flatMap bytes).dropLast

theorem takenFor_nil {rest : List UInt8} : TakenFor rest [] ↔ rest = [] := by
  simp [TakenFor]

theorem takenFor_cons {rest : List UInt8} {e : SubscribeEntry}
    {entries : List SubscribeEntry} :
    TakenFor rest (e :: entries) ↔
      (∃ more, rest = e.bytes ++ more ∧ TakenFor more entries) ∨
        entries = [] ∧ rest = prefixed e.topic := by
  have hlast : (e.bytes ++ [].flatMap bytes).dropLast = prefixed e.topic := by
    rw [List.flatMap_nil, List.append_nil, bytes, List.dropLast_concat]
  have hcut : entries ≠ [] → (e.bytes ++ entries.flatMap bytes).dropLast =
      e.bytes ++ (entries.flatMap bytes).dropLast :=
    fun hne => List.dropLast_append_of_ne_nil (flatMap_bytes_ne_nil hne)
  simp only [TakenFor, List.flatMap_cons]
  constructor
  · rintro (rfl | ⟨-, rfl⟩)
    · exact Or.inl ⟨_, rfl, Or.inl rfl⟩
    · by_cases hnil : entries = []
      · subst hnil
        exact Or.inr ⟨rfl, hlast⟩
      · exact Or.inl ⟨_, hcut hnil, Or.inr ⟨hnil, rfl⟩⟩
  · rintro (⟨more, rfl, rfl | ⟨hne, rfl⟩⟩ | ⟨rfl, rfl⟩)
    · exact Or.inl rfl
    · exact Or.inr ⟨List.cons_ne_nil _ _, (hcut hne).symm⟩
    · exact Or.inr ⟨List.cons_ne_nil _ _, hlast.symm⟩

end SubscribeEntry

namespace MqttWire

open SubscribeEntry

/-- Every entry is read, the last one also without its quality. -/
theorem subscribeTopics_of_takenFor {body : List UInt8}
    {entries : List SubscribeEntry} {off : ℕ}
    (h : TakenFor (body.drop off) entries) :
    subscribeTopics body off = some (entries.map text) := by
  induction entries generalizing off with
  | nil =>
      rw [takenFor_nil, List.drop_eq_nil_iff] at h
      exact subscribeTopics_of_length_le h
  | cons e entries ih =>
      rcases takenFor_cons.mp h with ⟨more, hdrop, hmore⟩ | ⟨rfl, hdrop⟩
      · rw [bytes, List.append_assoc] at hdrop
        obtain ⟨hread, hrest⟩ := readStr_of_drop e.fits hdrop
        rw [subscribeTopics_of_readStr hread, ih]
        · rfl
        · rwa [← List.drop_drop, hrest]
      · rw [← List.append_nil (prefixed e.topic)] at hdrop
        obtain ⟨hread, hrest⟩ := readStr_of_drop e.fits hdrop
        rw [List.drop_eq_nil_iff] at hrest
        rw [subscribeTopics_of_readStr hread,
          subscribeTopics_of_length_le (by omega)]
        rfl

/-- Whatever the loop returns are the topics of such entries. -/
theorem exists_takenFor {body : List UInt8} {off : ℕ} {topics : List String}
    (h : subscribeTopics body off = some topics) :
    ∃ entries, topics = entries.map text ∧ TakenFor (body.drop off) entries := by
  induction off using subscribeTopics.induct body generalizing topics with
  | case1 off hlt hread =>
      rw [subscribeTopics_of_none hlt hread] at h
      cases h
  | case2 off hlt topic off' hread ih =>
      rw [subscribeTopics_of_readStr hread] at h
      obtain ⟨rest, hrest, rfl⟩ := Option.map_eq_some_iff.mp h
      obtain ⟨⟨bytes, stop⟩, hbytes, heq⟩ := Option.map_eq_some_iff.mp hread
      cases heq
      obtain ⟨hfits, -, hdrop⟩ := readBytes_eq_some_iff.mp hbytes
      cases hstop : body.drop off' with
      | nil =>
          rw [subscribeTopics_of_length_le
            (by rw [List.drop_eq_nil_iff] at hstop; omega)] at hrest
          cases hrest
          rw [hstop, List.append_nil] at hdrop
          exact ⟨[⟨bytes, 0, hfits⟩], rfl, takenFor_cons.mpr (Or.inr ⟨rfl, hdrop⟩)⟩
      | cons q more =>
          obtain ⟨entries, rfl, htaken⟩ := ih hrest
          have hmore : body.drop (off' + 1) = more := by
            rw [← List.drop_drop, hstop, List.drop_one, List.tail_cons]
          rw [hmore] at htaken
          refine ⟨⟨bytes, q, hfits⟩ :: entries, rfl,
            takenFor_cons.mpr (Or.inl ⟨more, ?_, htaken⟩)⟩
          rw [hdrop, hstop, SubscribeEntry.bytes, List.append_assoc]
          rfl
  | case3 off hge =>
      rw [subscribeTopics_of_length_le (by omega)] at h
      cases h
      exact ⟨[], rfl, takenFor_nil.mpr (List.drop_eq_nil_of_le (by omega))⟩

end MqttWire

/-- A SUBSCRIBE as its grammar has it: a packet id and complete entries. -/
structure SubscribeBody where
  packetId : UInt16
  entries : List SubscribeEntry

namespace SubscribeBody

def bytes (s : SubscribeBody) : List UInt8 :=
  (s.packetId >>> 8).toUInt8 :: s.packetId.toUInt8 ::
    s.entries.flatMap SubscribeEntry.bytes

def subscribe (s : SubscribeBody) : Subscribe :=
  ⟨s.packetId, s.entries.map SubscribeEntry.text⟩

/-- One code for each entry. -/
def grant (s : SubscribeBody) : Sent := .suback s.packetId s.entries.length

/-- What the decoder takes for a body: all its bytes, or all but the quality of
the last topic. -/
def TakenFor (body : List UInt8) (s : SubscribeBody) : Prop :=
  body = s.bytes ∨ s.entries ≠ [] ∧ body = s.bytes.dropLast

theorem dropLast_bytes {s : SubscribeBody} (hne : s.entries ≠ []) :
    s.bytes.dropLast = (s.packetId >>> 8).toUInt8 :: s.packetId.toUInt8 ::
      (s.entries.flatMap SubscribeEntry.bytes).dropLast := by
  have hbytes := SubscribeEntry.flatMap_bytes_ne_nil hne
  rw [bytes, List.dropLast_cons_of_ne_nil (List.cons_ne_nil _ _),
    List.dropLast_cons_of_ne_nil hbytes]

/-- The packet id comes first, then what the topic loop takes. -/
theorem takenFor_iff {body : List UInt8} {s : SubscribeBody} :
    s.TakenFor body ↔
      ∃ hi lo rest, body = hi :: lo :: rest ∧ pair hi lo = s.packetId.toNat ∧
        SubscribeEntry.TakenFor rest s.entries := by
  constructor
  · rintro (rfl | ⟨hne, rfl⟩)
    · exact ⟨_, _, _, rfl, pair_packetId _, Or.inl rfl⟩
    · exact ⟨_, _, _, dropLast_bytes hne, pair_packetId _, Or.inr ⟨hne, rfl⟩⟩
  · rintro ⟨hi, lo, rest, rfl, hpair, htaken⟩
    rw [← pair_packetId] at hpair
    obtain ⟨rfl, rfl⟩ := pair_inj hpair
    rcases htaken with rfl | ⟨hne, rfl⟩
    · exact Or.inl rfl
    · exact Or.inr ⟨hne, (dropLast_bytes hne).symm⟩

/-- No body is both complete and without its last byte. -/
theorem dropLast_bytes_ne {s t : SubscribeBody} (hne : s.entries ≠ []) :
    t.bytes ≠ s.bytes.dropLast := by
  intro h
  have hbytes := SubscribeEntry.flatMap_bytes_ne_nil hne
  rw [dropLast_bytes hne, bytes] at h
  have hentries := (List.cons.inj (List.cons.inj h).2).2
  have hlast := List.dropLast_append_getLast hbytes
  rw [← hentries] at hlast
  have hshort := (SubscribeEntry.selfDelimiting_bytes.eq_of_flatMap_append_eq
    (fun e => by rw [SubscribeEntry.length_bytes, List.length_singleton]; omega)
    hlast).2
  exact List.cons_ne_nil _ _ hshort

end SubscribeBody

open SubscribeBody

namespace MqttWire

theorem decodeSubscribe_cons (hi lo : UInt8) (rest : List UInt8) :
    decodeSubscribe (hi :: lo :: rest) =
      (subscribeTopics (hi :: lo :: rest) 2).map fun topics =>
        .subscribe ⟨UInt16.ofNat (pair hi lo), topics⟩ := by
  simp [decodeSubscribe, Option.map_eq_bind]

/-- The decoder returns exactly the packets of the bodies whose bytes, or all but
the last, it is given. -/
theorem decodeSubscribe_eq_some_iff {body : List UInt8} {p : Packet} :
    decodeSubscribe body = some p ↔
      ∃ s : SubscribeBody, s.TakenFor body ∧ p = .subscribe s.subscribe := by
  constructor
  · intro h
    match body with
    | [] => cases h
    | [_] => cases h
    | hi :: lo :: rest =>
        rw [decodeSubscribe_cons] at h
        obtain ⟨topics, htopics, rfl⟩ := Option.map_eq_some_iff.mp h
        obtain ⟨entries, rfl, htaken⟩ := exists_takenFor htopics
        have hle := pair_le hi lo
        refine ⟨⟨UInt16.ofNat (pair hi lo), entries⟩,
          takenFor_iff.mpr ⟨hi, lo, rest, rfl, ?_, htaken⟩, rfl⟩
        rw [UInt16.toNat_ofNat_of_lt' (by change _ < 65536; omega)]
  · rintro ⟨s, htaken, rfl⟩
    obtain ⟨hi, lo, rest, rfl, hpair, hrest⟩ := takenFor_iff.mp htaken
    have htopics : subscribeTopics (hi :: lo :: rest) 2 =
        some (s.entries.map SubscribeEntry.text) :=
      subscribeTopics_of_takenFor hrest
    rw [decodeSubscribe_cons, htopics, hpair, UInt16.ofNat_toNat]
    rfl

end MqttWire

/-- Exactly the well-formed bodies are decoded, each to what it says. -/
def ByGrammar (body : List UInt8) : Prop :=
  ∀ p, decodeSubscribe body = some p ↔
    ∃ s : SubscribeBody, s.bytes = body ∧ p = .subscribe s.subscribe

/-- A well-formed body without its last byte, the quality of the last topic. -/
def LacksLastQos (body : List UInt8) : Prop :=
  ∃ s : SubscribeBody, s.entries ≠ [] ∧ body = s.bytes.dropLast

theorem byGrammar_iff {body : List UInt8} :
    ByGrammar body ↔ ¬ LacksLastQos body := by
  constructor
  · rintro h ⟨s, hne, hbody⟩
    obtain ⟨t, ht, -⟩ := (h _).mp
      (decodeSubscribe_eq_some_iff.mpr ⟨s, Or.inr ⟨hne, hbody⟩, rfl⟩)
    exact dropLast_bytes_ne hne (ht.trans hbody)
  · intro h p
    rw [decodeSubscribe_eq_some_iff]
    constructor
    · rintro ⟨s, hbody | hcut, hp⟩
      · exact ⟨s, hbody.symm, hp⟩
      · exact absurd ⟨s, hcut⟩ h
    · rintro ⟨s, rfl, hp⟩
      exact ⟨s, Or.inl rfl, hp⟩

namespace Packet

/-- The SUBACK a packet is owed. -/
def granted? : Packet → Option Sent
  | subscribe s => some (.suback s.packetId s.topics.length)
  | _ => none

end Packet

namespace Sent

def isSuback : Sent → Bool
  | suback _ _ => true
  | _ => false

theorem filter_isSuback_owed (p : Packet) :
    p.owed.filter isSuback = p.granted?.toList := by
  cases p with
  | publish m => cases h : m.packetId <;> simp [Packet.owed, h, isSuback,
      Packet.granted?]
  | _ => rfl

end Sent

/-- The SUBACKs of a log, in order. -/
def subacks (log : List Activity) : List Sent :=
  (replies log).filter Sent.isSuback

/-- The frames a connection takes off its stream, with their packets, up to a
DISCONNECT. -/
def takenFrames (reads : List SocketRead) : List (List UInt8 × Option Packet) :=
  (wireFramer.withBytes.feedAll []
    ((reads.map SocketRead.bytes).takeWhile (· ≠ []))).1.takeWhile
      fun x => x.2.all (· ≠ .disconnect)

theorem heardPackets_eq_takenFrames (reads : List SocketRead) :
    heardPackets reads = (takenFrames reads).filterMap Prod.snd := by
  rw [heardPackets, Decoder.pushAll_eq_feedAll, wireFramer.feedAll_withBytes,
    List.filterMap_map, List.takeWhile_filterMap]
  rfl

theorem exists_takenFrames_eq (reads : List SocketRead) :
    ∃ frames : List WireFrame,
      takenFrames reads = frames.map fun f => (f.bytes, f.packet) := by
  have hmem : takenFrames reads ∈
      Set.range (List.map fun f : WireFrame => (f.bytes, f.packet)) := by
    rw [Set.range_list_map]
    intro x hx
    exact wireFramer.withBytes.exists_item_of_mem_feedAll
      (List.takeWhile_subset _ hx)
  obtain ⟨frames, hframes⟩ := hmem
  exact ⟨frames, hframes.symm⟩

/-- Only a SUBSCRIBE body decodes to a SUBSCRIBE. -/
theorem WireFrame.of_isSubscribe {f : WireFrame} {p : Packet}
    (hf : f.packet = some p) (hp : p.isSubscribe = true) :
    f.header >>> 4 = 8 ∧ decodeSubscribe f.body = some p := by
  have hyields : Yields (fun q => q.isSubscribe = true →
      f.header >>> 4 = 8 ∧ decodeSubscribe f.body = some q) f.packet := by
    apply decodeBody_yields
    · exact fun _ h => absurd h Bool.false_ne_true
    · exact fun _ _ h => absurd h Bool.false_ne_true
    · exact fun h => absurd h Bool.false_ne_true
    · exact fun h => absurd h Bool.false_ne_true
    · exact fun _ h => absurd h Bool.false_ne_true
    · exact fun hkind q hq _ => ⟨hkind, hq⟩
  exact hyields p hf hp

/-- A frame that decodes to a SUBSCRIBE. -/
def WireFrame.isSubscribe (f : WireFrame) : Bool :=
  f.packet.any Packet.isSubscribe

/-- The SUBSCRIBE bodies of frames, of those that decode. -/
def subscribeBodies (frames : List WireFrame) : List (List UInt8) :=
  (frames.filter WireFrame.isSubscribe).map WireFrame.body

/-- The SUBACKs owed for frames. -/
def grants (frames : List WireFrame) : List Sent :=
  (frames.filterMap WireFrame.packet).filterMap Packet.granted?

theorem subacks_observeConnection (codec : Codec) (opts : OnboardOptions)
    (written : Bool) {reads : List SocketRead} {frames : List WireFrame}
    (h : takenFrames reads = frames.map fun f => (f.bytes, f.packet)) :
    subacks (observeConnection codec opts written reads) = grants frames := by
  rw [subacks, Observe.replies_observeConnection, List.filter_flatMap,
    heardPackets_eq_takenFrames, h, List.filterMap_map, grants]
  simp only [Sent.filter_isSuback_owed]
  rw [List.filterMap_eq_flatMap_toList Packet.granted?]
  rfl

theorem WireFrame.packet_of_kind {f : WireFrame} (h : f.header >>> 4 = 8) :
    f.packet = decodeSubscribe f.body := by
  rw [packet, decodeBody, h]
  rfl

theorem granted_eq_none {f : WireFrame} (h : f.isSubscribe = false) :
    f.packet.bind Packet.granted? = none := by
  rw [WireFrame.isSubscribe] at h
  cases hp : f.packet with
  | none => rfl
  | some p =>
      rw [hp, Option.any_some] at h
      cases p with
      | subscribe s => cases h
      | _ => rfl

/-- A SUBSCRIBE frame that is not cut short is one of the grammar, and the SUBACK
for it grants one code for each of its entries. -/
theorem exists_subscribeBody {f : WireFrame} {p : Packet}
    (hcut : ¬ LacksLastQos f.body) (hf : f.packet = some p)
    (hp : p.isSubscribe = true) :
    ∃ s : SubscribeBody, s.bytes = f.body ∧ p.granted? = some s.grant := by
  obtain ⟨-, hdecoded⟩ := WireFrame.of_isSubscribe hf hp
  obtain ⟨s, hbytes, rfl⟩ := (byGrammar_iff.mpr hcut p).mp hdecoded
  refine ⟨s, hbytes, ?_⟩
  rw [Packet.granted?, grant, subscribe, List.length_map]

/-- Every SUBACK grants what a well-formed SUBSCRIBE asks for, as long as no
SUBSCRIBE lacks its last byte. -/
theorem grants_by_grammar (frames : List WireFrame) :
    (∀ f ∈ frames, f.header >>> 4 = 8 → ¬ LacksLastQos f.body) ↔
      ∃ bodies : List SubscribeBody,
        subscribeBodies frames = bodies.map bytes ∧
          grants frames = bodies.map grant := by
  constructor
  · intro hcut
    induction frames with
    | nil => exact ⟨[], rfl, rfl⟩
    | cons f frames ih =>
        obtain ⟨bodies, hbodies, hgrants⟩ :=
          ih fun g hg => hcut g (List.mem_cons_of_mem f hg)
        by_cases hsub : f.isSubscribe = true
        · obtain ⟨p, hf, hp⟩ := (Option.any_eq_true _ _).mp hsub
          have hkind := (WireFrame.of_isSubscribe hf hp).1
          obtain ⟨s, hbytes, hgrant⟩ := exists_subscribeBody
            (hcut f List.mem_cons_self hkind) hf hp
          refine ⟨s :: bodies, ?_, ?_⟩
          · rw [subscribeBodies, List.filter_cons_of_pos hsub, List.map_cons,
              ← subscribeBodies, hbodies, List.map_cons, hbytes]
          · rw [grants, List.filterMap_cons_some hf,
              List.filterMap_cons_some hgrant, ← grants, hgrants, List.map_cons]
        · refine ⟨bodies, ?_, ?_⟩
          · rw [subscribeBodies, List.filter_cons_of_neg hsub, ← subscribeBodies,
              hbodies]
          · rw [← hgrants, grants, grants, List.filterMap_filterMap,
              List.filterMap_filterMap, List.filterMap_cons_none]
            exact granted_eq_none (Bool.eq_false_iff.mpr hsub)
  · rintro ⟨bodies, hbodies, -⟩ f hf hkind ⟨s, hne, hbody⟩
    have hdecoded : decodeSubscribe f.body = some (.subscribe s.subscribe) :=
      decodeSubscribe_eq_some_iff.mpr ⟨s, Or.inr ⟨hne, hbody⟩, rfl⟩
    have hsub : f.isSubscribe = true := by
      rw [WireFrame.isSubscribe, WireFrame.packet_of_kind hkind, hdecoded]
      rfl
    have hmem : f.body ∈ subscribeBodies frames :=
      List.mem_map_of_mem (List.mem_filter.mpr ⟨hf, hsub⟩)
    rw [hbodies] at hmem
    obtain ⟨t, -, ht⟩ := List.mem_map.mp hmem
    exact dropLast_bytes_ne hne (ht.trans hbody)

/-- SUBSCRIBE is parsed by its grammar, and every SUBACK of a connection grants
one code for each entry of a well-formed SUBSCRIBE, exactly where no SUBSCRIBE
lacks the last byte of its last entry. -/
theorem subscribe_by_grammar (body : List UInt8) (codec : Codec)
    (opts : OnboardOptions) (written : Bool) (reads : List SocketRead) :
    (ByGrammar body ↔ ¬ LacksLastQos body) ∧
    ∃ frames : List WireFrame,
      takenFrames reads = frames.map (fun f => (f.bytes, f.packet)) ∧
      ((∀ f ∈ frames, f.header >>> 4 = 8 → ¬ LacksLastQos f.body) ↔
        ∃ bodies : List SubscribeBody,
          subscribeBodies frames = bodies.map bytes ∧
            subacks (observeConnection codec opts written reads) =
              bodies.map grant) := by
  obtain ⟨frames, hframes⟩ := exists_takenFrames_eq reads
  refine ⟨byGrammar_iff, frames, hframes, ?_⟩
  rw [subacks_observeConnection codec opts written hframes]
  exact grants_by_grammar frames

/-- A topic of one byte whose quality is missing decodes, is no SUBSCRIBE of the
grammar, and is granted a code. -/
theorem subscribe_without_last_qos :
    decodeSubscribe [0, 1, 0, 1, 0x61] = some (.subscribe ⟨1, ["a"]⟩) ∧
      ¬ ByGrammar [0, 1, 0, 1, 0x61] ∧
      ¬ (∃ s : SubscribeBody, s.bytes = [0, 1, 0, 1, 0x61]) ∧
      (Packet.subscribe ⟨1, ["a"]⟩).owed = [.suback 1 1] := by
  let s : SubscribeBody := ⟨1, [⟨[0x61], 0, by decide⟩]⟩
  have hbody : [0, 1, 0, 1, 0x61] = s.bytes.dropLast := by decide
  have hdecoded : decodeSubscribe [0, 1, 0, 1, 0x61] =
      some (.subscribe s.subscribe) :=
    decodeSubscribe_eq_some_iff.mpr ⟨s, Or.inr ⟨List.cons_ne_nil _ _, hbody⟩, rfl⟩
  have hcut : LacksLastQos [0, 1, 0, 1, 0x61] :=
    ⟨s, List.cons_ne_nil _ _, hbody⟩
  have htext : s.subscribe = ⟨1, ["a"]⟩ := by decide +kernel
  refine ⟨by rw [hdecoded, htext], fun h => byGrammar_iff.mp h hcut, ?_, rfl⟩
  rintro ⟨t, ht⟩
  exact dropLast_bytes_ne (List.cons_ne_nil _ _) (ht.trans hbody)

end Aquilo
