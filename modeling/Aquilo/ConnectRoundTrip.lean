/-
A CONNECT and its decoding: what a client sends is recovered from the whole body
and from no part of it.
-/
import Aquilo.PublishRoundTrip

namespace Aquilo

namespace MqttWire

section Arrived

variable {α β : Type}

/-- What the first `k` bytes give of a value that ends at byte `stop`: all of it
or nothing. -/
def arrived (k stop : ℕ) (a : α) : Option α := if stop ≤ k then some a else none

theorem arrived_of_le {k stop : ℕ} (h : stop ≤ k) (a : α) :
    arrived k stop a = some a := if_pos h

theorem arrived_of_lt {k stop : ℕ} (h : k < stop) (a : α) :
    arrived k stop a = none := if_neg (by omega)

theorem map_arrived (f : α → β) (k stop : ℕ) (a : α) :
    (arrived k stop a).map f = arrived k stop (f a) := by
  rw [arrived, arrived, apply_ite (Option.map f)]
  rfl

/-- Values read one after the other have arrived when the last one has. -/
theorem arrived_bind {k stop last : ℕ} {a : α} {b : β} {f : α → Option β}
    (hlast : stop ≤ last) (hf : stop ≤ k → f a = arrived k last b) :
    (arrived k stop a).bind f = arrived k last b := by
  by_cases hk : stop ≤ k
  · rw [arrived_of_le hk, Option.bind_some, hf hk]
  · rw [arrived_of_lt (by omega), arrived_of_lt (by omega), Option.bind_none]

end Arrived

/-- A byte string behind its two-byte length. -/
def prefixed (bytes : List UInt8) : List UInt8 :=
  UInt8.ofNat (bytes.length >>> 8) :: UInt8.ofNat bytes.length :: bytes

theorem length_prefixed (bytes : List UInt8) :
    (prefixed bytes).length = bytes.length + 2 := rfl

theorem drop_prefixed (front bytes : List UInt8) :
    (front ++ prefixed bytes).drop (front.length + 2) = bytes := by
  rw [prefixed, List.drop_append, List.drop_eq_nil_of_le (by omega),
    Nat.add_sub_cancel_left]
  rfl

theorem getElem?_middle {whole front middle more : List UInt8} {i : ℕ}
    (hwhole : whole = front ++ middle ++ more) (hi : i < middle.length) :
    whole[front.length + i]? = middle[i]? := by
  rw [hwhole, List.append_assoc, List.getElem?_append_right (by omega),
    Nat.add_sub_cancel_left, List.getElem?_append_left hi]

/-- Of a byte string standing in a buffer, a prefix of the buffer gives all or
nothing. -/
theorem readBytes_take {whole front bytes more : List UInt8} {k : ℕ}
    (hwhole : whole = front ++ prefixed bytes ++ more)
    (hbytes : bytes.length ≤ 65535) (hk : k ≤ whole.length) :
    readBytes (whole.take k) front.length =
      arrived k (front ++ prefixed bytes).length
        (bytes, (front ++ prefixed bytes).length) := by
  have hhi : whole[front.length]? = some (UInt8.ofNat (bytes.length >>> 8)) :=
    getElem?_middle hwhole (i := 0) (by simp [prefixed])
  have hlo : whole[front.length + 1]? = some (UInt8.ofNat bytes.length) :=
    getElem?_middle hwhole (by simp [prefixed])
  have hpair : pair (UInt8.ofNat (bytes.length >>> 8))
      (UInt8.ofNat bytes.length) = bytes.length := by
    rw [pair_ofNat, Nat.mod_eq_of_lt (by omega)]
  have hstop : (front ++ prefixed bytes).length =
      front.length + 2 + bytes.length := by
    rw [List.length_append, length_prefixed]
    omega
  have hlength : (whole.take k).length = k := List.length_take_of_le hk
  rw [readBytes, hstop]
  by_cases hone : k ≤ front.length
  · rw [List.getElem?_take_eq_none hone, arrived_of_lt (by omega)]
    rfl
  · rw [List.getElem?_take_of_lt (by omega), hhi]
    by_cases htwo : k ≤ front.length + 1
    · rw [List.getElem?_take_eq_none htwo, arrived_of_lt (by omega)]
      rfl
    · rw [List.getElem?_take_of_lt (by omega), hlo]
      simp only [Option.bind_eq_bind, Option.bind_some, hpair, hlength]
      by_cases hall : k < front.length + 2 + bytes.length
      · rw [if_pos hall, arrived_of_lt hall]
      · have hbody : (whole.take (front.length + 2 + bytes.length)).drop
            (front.length + 2) = bytes := by
          rw [hwhole, ← hstop, List.take_left, drop_prefixed]
        rw [if_neg hall, arrived_of_le (by omega), List.take_take,
          Nat.min_eq_left (by omega), hbody]

theorem readStr_take {whole front more : List UInt8} {s : String} {k : ℕ}
    (hwhole : whole = front ++ prefixed (Utf8.encode s) ++ more)
    (hs : (Utf8.encode s).length ≤ 65535) (hk : k ≤ whole.length) :
    readStr (whole.take k) front.length =
      arrived k (front ++ prefixed (Utf8.encode s)).length
        (s, (front ++ prefixed (Utf8.encode s)).length) := by
  rw [readStr, readBytes_take hwhole hs hk, map_arrived]
  simp only [Utf8.fromUtf8Lossy_encode]

/-- The bytes of a string that may be absent. -/
def optionalBytes (field : Option String) : List UInt8 :=
  field.elim [] fun s => prefixed (Utf8.encode s)

/-- A string that is read when a flag announces it. -/
def readOptional (announced : Prop) [Decidable announced] (b : List UInt8)
    (off : ℕ) : Option (Option String × ℕ) :=
  if announced then (readStr b off).map fun r => (some r.1, r.2)
  else some (none, off)

/-- Two byte strings that are read over when a flag announces them. -/
def skipPair (announced : Prop) [Decidable announced] (b : List UInt8)
    (off : ℕ) : Option ℕ :=
  if announced then
    (readBytes b off).bind fun r => (readBytes b r.2).map Prod.snd
  else some off

/-- The decoder as one reader after the other. -/
theorem decodeConnect_eq (body : List UInt8) :
    decodeConnect body =
      (readBytes body 0).bind fun name =>
      body[name.2]?.bind fun _ =>
      body[name.2 + 1]?.bind fun flags =>
        if body.length < name.2 + 4 then none
        else
          (readStr body (name.2 + 4)).bind fun clientId =>
          (skipPair (flags &&& 0x04 ≠ 0) body clientId.2).bind fun off =>
          (readOptional (flags &&& 0x80 ≠ 0) body off).bind fun username =>
          (readOptional (flags &&& 0x40 ≠ 0) body username.2).map fun password =>
            .connect ⟨clientId.1, username.1, password.1⟩ := by
  unfold decodeConnect skipPair readOptional
  refine congrArg (Option.bind _) (funext fun name => ?_)
  refine congrArg (Option.bind _) (funext fun level => ?_)
  refine congrArg (Option.bind _) (funext fun flags => ?_)
  dsimp only
  split
  · rfl
  · refine congrArg (Option.bind _) (funext fun clientId => ?_)
    by_cases hwill : flags &&& 0x04 ≠ 0 <;>
      by_cases husername : flags &&& 0x80 ≠ 0 <;>
      by_cases hpassword : flags &&& 0x40 ≠ 0 <;>
      simp [hwill, husername, hpassword, Option.map_eq_bind, Option.bind_assoc]

theorem readOptional_take {whole front more : List UInt8}
    {field : Option String} {announced : Prop} [Decidable announced] {k : ℕ}
    (hflag : announced ↔ field.isSome = true)
    (hwhole : whole = front ++ optionalBytes field ++ more)
    (hfits : ∀ s ∈ field, (Utf8.encode s).length ≤ 65535)
    (hk : k ≤ whole.length) (hfront : front.length ≤ k) :
    readOptional announced (whole.take k) front.length =
      arrived k (front ++ optionalBytes field).length
        (field, (front ++ optionalBytes field).length) := by
  cases field with
  | none =>
      rw [readOptional, if_neg (by simp [hflag]), optionalBytes,
        Option.elim_none, List.append_nil, arrived_of_le hfront]
  | some s =>
      rw [readOptional, if_pos (by simp [hflag]),
        readStr_take hwhole (hfits s rfl) hk, map_arrived]
      rfl

end MqttWire

open MqttWire

/-- What a client puts into a CONNECT. -/
structure ConnectFields where
  protocolName : String
  level : UInt8
  flags : UInt8
  keepAlive : UInt16
  clientId : String
  will : Option (String × List UInt8)
  username : Option String
  password : Option String
deriving DecidableEq

namespace ConnectFields

/-- Protocol name. -/
def nameBytes (c : ConnectFields) : List UInt8 :=
  prefixed (Utf8.encode c.protocolName)

/-- Protocol level, connect flags and keep-alive. -/
def headBytes (c : ConnectFields) : List UInt8 :=
  [c.level, c.flags, (c.keepAlive >>> 8).toUInt8, c.keepAlive.toUInt8]

def clientIdBytes (c : ConnectFields) : List UInt8 :=
  prefixed (Utf8.encode c.clientId)

/-- Will topic and will message. -/
def willBytes (c : ConnectFields) : List UInt8 :=
  c.will.elim [] fun w => prefixed (Utf8.encode w.1) ++ prefixed w.2

def usernameBytes (c : ConnectFields) : List UInt8 := optionalBytes c.username

def passwordBytes (c : ConnectFields) : List UInt8 := optionalBytes c.password

/-- The variable header and the payload of the packet. -/
def body (c : ConnectFields) : List UInt8 :=
  c.nameBytes ++ c.headBytes ++ c.clientIdBytes ++ c.willBytes ++
    c.usernameBytes ++ c.passwordBytes

/-- What is to be recovered. -/
def connect (c : ConnectFields) : Connect := ⟨c.clientId, c.username, c.password⟩

/-- The flags announce the optional fields, and every field fits its length. -/
structure WellFormed (c : ConnectFields) : Prop where
  will_flag : c.flags &&& 0x04 ≠ 0 ↔ c.will.isSome = true
  username_flag : c.flags &&& 0x80 ≠ 0 ↔ c.username.isSome = true
  password_flag : c.flags &&& 0x40 ≠ 0 ↔ c.password.isSome = true
  name_fits : (Utf8.encode c.protocolName).length ≤ 65535
  clientId_fits : (Utf8.encode c.clientId).length ≤ 65535
  will_fits : ∀ w ∈ c.will, (Utf8.encode w.1).length ≤ 65535 ∧
    w.2.length ≤ 65535
  username_fits : ∀ u ∈ c.username, (Utf8.encode u).length ≤ 65535
  password_fits : ∀ p ∈ c.password, (Utf8.encode p).length ≤ 65535

/-- Level and flags stand behind the protocol name, and two bytes more have to
be there. -/
theorem head_take {whole front more : List UInt8} {α : Type} (c : ConnectFields)
    {f : UInt8 → Option α} {b : α} {k last : ℕ}
    (hwhole : whole = front ++ c.headBytes ++ more) (hk : k ≤ whole.length)
    (hlast : front.length + 4 ≤ last)
    (hf : front.length + 4 ≤ k → f c.flags = arrived k last b) :
    ((whole.take k)[front.length]?.bind fun _ =>
      (whole.take k)[front.length + 1]?.bind fun flags =>
        if (whole.take k).length < front.length + 4 then none else f flags) =
      arrived k last b := by
  by_cases hall : front.length + 4 ≤ k
  · have hlevel : whole[front.length]? = some c.level :=
      getElem?_middle hwhole (i := 0) (by simp [headBytes])
    have hflags : whole[front.length + 1]? = some c.flags :=
      getElem?_middle hwhole (by simp [headBytes])
    rw [List.getElem?_take_of_lt (by omega), hlevel, Option.bind_some,
      List.getElem?_take_of_lt (by omega), hflags, Option.bind_some,
      List.length_take_of_le hk, if_neg (by omega), hf hall]
  · have hshort : (whole.take k).length < front.length + 4 := by
      rw [List.length_take_of_le hk]
      omega
    simp only [if_pos hshort, arrived_of_lt (show k < last by omega)]
    cases (whole.take k)[front.length]? <;>
      cases (whole.take k)[front.length + 1]? <;> rfl

/-- Will topic and message are read over when the flag announces them. -/
theorem will_take {whole front more : List UInt8} {c : ConnectFields} {k : ℕ}
    (h : c.WellFormed) (hwhole : whole = front ++ c.willBytes ++ more)
    (hk : k ≤ whole.length) (hfront : front.length ≤ k) :
    skipPair (c.flags &&& 0x04 ≠ 0) (whole.take k) front.length =
      arrived k (front ++ c.willBytes).length (front ++ c.willBytes).length := by
  have hflag := h.will_flag
  have hfits := h.will_fits
  rw [willBytes] at hwhole ⊢
  cases hwill : c.will with
  | none =>
      rw [hwill] at hflag
      rw [skipPair, if_neg (by simp [hflag]), Option.elim_none, List.append_nil,
        arrived_of_le hfront]
  | some w =>
      rw [hwill] at hwhole hflag hfits
      obtain ⟨htopic, hmessage⟩ := hfits w rfl
      rw [Option.elim_some, ← List.append_assoc front] at hwhole
      have hfirst : whole = front ++ prefixed (Utf8.encode w.1) ++
          (prefixed w.2 ++ more) := by rw [hwhole, List.append_assoc _ _ more]
      rw [skipPair, if_pos (by simp [hflag]), readBytes_take hfirst htopic hk,
        Option.elim_some, ← List.append_assoc]
      refine arrived_bind (by simp) fun _ => ?_
      rw [readBytes_take hwhole hmessage hk, map_arrived]

/-- Of a body, a prefix gives the whole packet or nothing. -/
theorem decodeConnect_take {c : ConnectFields} (h : c.WellFormed) {k : ℕ}
    (hk : k ≤ c.body.length) :
    decodeConnect (c.body.take k) =
      arrived k c.body.length (.connect c.connect) := by
  have hname : c.body = [] ++ c.nameBytes ++ (c.headBytes ++ c.clientIdBytes ++
      c.willBytes ++ c.usernameBytes ++ c.passwordBytes) := by
    simp only [body, List.append_assoc, List.nil_append]
  have hhead : c.body = c.nameBytes ++ c.headBytes ++ (c.clientIdBytes ++
      c.willBytes ++ c.usernameBytes ++ c.passwordBytes) := by
    simp only [body, List.append_assoc]
  have hclientId : c.body = c.nameBytes ++ c.headBytes ++ c.clientIdBytes ++
      (c.willBytes ++ c.usernameBytes ++ c.passwordBytes) := by
    simp only [body, List.append_assoc]
  have hwill : c.body = c.nameBytes ++ c.headBytes ++ c.clientIdBytes ++
      c.willBytes ++ (c.usernameBytes ++ c.passwordBytes) := by
    simp only [body, List.append_assoc]
  have husername : c.body = c.nameBytes ++ c.headBytes ++ c.clientIdBytes ++
      c.willBytes ++ c.usernameBytes ++ c.passwordBytes := rfl
  have hpassword : c.body = c.nameBytes ++ c.headBytes ++ c.clientIdBytes ++
      c.willBytes ++ optionalBytes c.username ++ optionalBytes c.password ++
        [] := (List.append_nil _).symm
  have hread : readBytes (c.body.take k) 0 = arrived k c.nameBytes.length
      (Utf8.encode c.protocolName, c.nameBytes.length) :=
    readBytes_take hname h.name_fits hk
  have hidentified : readStr (c.body.take k) (c.nameBytes.length + 4) =
      arrived k (c.nameBytes ++ c.headBytes ++ c.clientIdBytes).length
        (c.clientId, (c.nameBytes ++ c.headBytes ++ c.clientIdBytes).length) := by
    have hend : c.nameBytes.length + 4 = (c.nameBytes ++ c.headBytes).length := by
      rw [List.length_append]
      rfl
    rw [hend]
    exact readStr_take hclientId h.clientId_fits hk
  rw [decodeConnect_eq, hread]
  refine arrived_bind (by simp [body]) fun hk1 => ?_
  refine c.head_take hhead hk (by simp [body, headBytes]) fun hk2 => ?_
  rw [hidentified]
  refine arrived_bind (by simp [body]) fun hk3 => ?_
  dsimp only
  rw [will_take h hwill hk hk3]
  refine arrived_bind (by simp [body]) fun hk4 => ?_
  rw [readOptional_take h.username_flag husername h.username_fits hk hk4]
  refine arrived_bind (by simp [body, usernameBytes]) fun hk5 => ?_
  dsimp only
  rw [readOptional_take h.password_flag hpassword h.password_fits hk hk5,
    map_arrived]
  rfl

theorem length_optionalBytes_le {field : Option String}
    (h : ∀ s ∈ field, (Utf8.encode s).length ≤ 65535) :
    (optionalBytes field).length ≤ 65537 := by
  cases field with
  | none => exact Nat.zero_le _
  | some s =>
      have := h s rfl
      rw [optionalBytes, Option.elim_some, length_prefixed]
      omega

/-- Fields that fit their lengths make a body that fits its own. -/
theorem length_body_le {c : ConnectFields} (h : c.WellFormed) :
    c.body.length ≤ 268435455 := by
  have hwill : c.willBytes.length ≤ 131074 := by
    have hfits := h.will_fits
    rw [willBytes]
    cases hw : c.will with
    | none => exact Nat.zero_le _
    | some w =>
        rw [hw] at hfits
        obtain ⟨htopic, hmessage⟩ := hfits w rfl
        rw [Option.elim_some, List.length_append, length_prefixed,
          length_prefixed]
        omega
  have husername := length_optionalBytes_le h.username_fits
  have hpassword := length_optionalBytes_le h.password_fits
  have hname := h.name_fits
  have hclientId := h.clientId_fits
  simp only [body, nameBytes, headBytes, clientIdBytes, usernameBytes,
    passwordBytes, List.length_append, length_prefixed, List.length_cons,
    List.length_nil]
  omega

end ConnectFields

open ConnectFields

/-- What a client sends is recovered from the whole body, from no part of it,
and from the framed packet however it is cut into chunks. -/
theorem connect_roundTrip (c : ConnectFields) (h : c.WellFormed) :
    decodeConnect c.body = some (.connect c.connect) ∧
    (∀ part, part <+: c.body → part ≠ c.body → decodeConnect part = none) ∧
    ∀ chunks : List (List UInt8), chunks.flatten = frame 0x10 c.body →
      Decoder.new.pushAll chunks = ([.connect c.connect], Decoder.new) := by
  have hwhole : decodeConnect c.body = some (.connect c.connect) := by
    have htake := decodeConnect_take h le_rfl
    rwa [List.take_length, arrived_of_le le_rfl] at htake
  refine ⟨hwhole, ?_, ?_⟩
  · intro part hpart hne
    have hlt : part.length < c.body.length := by
      have := hpart.length_le
      have := mt hpart.eq_of_length hne
      omega
    rw [List.prefix_iff_eq_take.mp hpart, decodeConnect_take h hlt.le,
      arrived_of_lt hlt]
  · intro chunks hchunks
    have hpacket : (WireFrame.ofBody 0x10 c.body (length_body_le h)).packet =
        some (.connect c.connect) := by
      have hkind : (0x10 : UInt8) >>> 4 = 1 := by decide
      rw [← hwhole]
      exact if_pos hkind
    rw [Decoder.pushAll_frames [WireFrame.ofBody 0x10 c.body (length_body_le h)]
      (by simpa [WireFrame.ofBody_bytes] using hchunks),
      List.filterMap_cons_some hpacket, List.filterMap_nil]

/-- A CONNECT with a will and credentials. -/
def connectSample : ConnectFields where
  protocolName := "MQTT"
  level := 4
  flags := 0xc6
  keepAlive := 60
  clientId := "CieczSensorae83fc"
  will := some ("a/b", [0x6f, 0x66, 0x66])
  username := some "ae83fc"
  password := some "48007129"

/-- The will of the sample is read over, and without its last byte nothing is
decoded. -/
theorem connect_roundTrip_sample :
    decodeConnect connectSample.body = some (.connect
        ⟨"CieczSensorae83fc", some "ae83fc", some "48007129"⟩) ∧
      decodeConnect connectSample.body.dropLast = none ∧
      Decoder.new.pushAll [(frame 0x10 connectSample.body).take 9,
          (frame 0x10 connectSample.body).drop 9] =
        ([.connect ⟨"CieczSensorae83fc", some "ae83fc", some "48007129"⟩],
          Decoder.new) := by
  have h := connect_roundTrip connectSample
    ⟨by decide, by decide, by decide, by decide +kernel, by decide +kernel,
      by decide +kernel, by decide +kernel, by decide +kernel⟩
  exact ⟨h.1, h.2.1 _ (List.dropLast_prefix _) (by decide +kernel),
    h.2.2 _ (by simp)⟩

end Aquilo
