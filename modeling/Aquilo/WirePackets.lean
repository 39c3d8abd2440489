/-
What a decoded packet can look like: a PUBLISH has a packet id exactly when its
quality of service asks for one, and a SUBSCRIBE has room for its topics.
-/
import Aquilo.MqttFraming

namespace Aquilo

/-- The most bytes a remaining length can announce. -/
def maxRemainingLength : ℕ := 268435455

theorem WireFrame.length_body_le (f : WireFrame) :
    f.body.length ≤ maxRemainingLength := by
  have hvalue := Varint.value_lt f.lengthBytes
  have hpow : 128 ^ f.lengthBytes.length ≤ 128 ^ 4 :=
    Nat.pow_le_pow_right (by decide) f.short
  rw [f.value_eq] at hvalue
  rw [maxRemainingLength]
  omega

def Packet.WellFormed : Packet → Prop
  | .publish m => m.packetId.isSome = true ↔ 0 < m.qos
  | .subscribe s => 2 + s.topics.length ≤ maxRemainingLength
  | _ => True

namespace MqttWire

/-- Every packet a decoder returns has a property. -/
def Yields (P : Packet → Prop) (x : Option Packet) : Prop := ∀ p, x = some p → P p

namespace Yields

variable {P : Packet → Prop}

theorem of_none : Yields P none := fun _ h => by cases h

theorem of_some {p : Packet} (h : P p) : Yields P (some p) :=
  fun _ heq => Option.some.inj heq ▸ h

theorem bind {α : Type} {x : Option α} {f : α → Option Packet}
    (h : ∀ a, Yields P (f a)) : Yields P (x >>= f) := by
  intro p hp
  obtain ⟨a, -, ha⟩ := Option.bind_eq_some_iff.mp hp
  exact h a p ha

theorem ite {c : Prop} [Decidable c] {x y : Option Packet} (hx : c → Yields P x)
    (hy : ¬ c → Yields P y) : Yields P (if c then x else y) := by
  split
  · rename_i hc
    exact hx hc
  · rename_i hc
    exact hy hc

end Yields

theorem decodeConnect_yields {P : Packet → Prop} (hP : ∀ c, P (.connect c))
    (body : List UInt8) : Yields P (decodeConnect body) := by
  have hlast : ∀ (flags : UInt8) (clientId : String) (off : ℕ)
      (username : Option String),
      Yields P (do
        let password ←
          if flags &&& 0x40 ≠ 0 then
            (readStr body off).map fun read => some read.1
          else pure none
        return .connect { clientId, username, password }) := by
    intro flags clientId off username
    exact Yields.ite (fun _ => Yields.bind fun _ => Yields.of_some (hP _))
      (fun _ => Yields.bind fun _ => Yields.of_some (hP _))
  dsimp only [decodeConnect]
  refine Yields.bind fun _ => Yields.bind fun _ => Yields.bind fun flags => ?_
  refine Yields.ite (fun _ => Yields.of_none) (fun _ => Yields.bind fun _ => ?_)
  refine Yields.ite (fun _ => ?_) (fun _ => ?_)
  · refine Yields.bind fun _ => Yields.bind fun _ => Yields.bind fun _ => ?_
    exact Yields.ite (fun _ => Yields.bind fun _ => hlast _ _ _ _)
      (fun _ => Yields.bind fun _ => hlast _ _ _ _)
  · refine Yields.bind fun _ => ?_
    exact Yields.ite (fun _ => Yields.bind fun _ => hlast _ _ _ _)
      (fun _ => Yields.bind fun _ => hlast _ _ _ _)

theorem decodePublish_yields {P : Packet → Prop}
    (hP : ∀ m : Publish, (m.packetId.isSome = true ↔ 0 < m.qos) →
      P (.publish m)) (flags : UInt8) (body : List UInt8) :
    Yields P (decodePublish flags body) := by
  dsimp only [decodePublish]
  refine Yields.bind fun _ => Yields.ite (fun hqos => ?_) (fun hqos => ?_)
  · refine Yields.bind fun _ => Yields.bind fun _ => ?_
    dsimp only [pure, bind, Option.bind]
    refine Yields.ite (fun _ => Yields.of_some ?_) (fun _ => Yields.of_none)
    exact hP _ (iff_of_true rfl hqos)
  · dsimp only [pure, bind, Option.bind]
    refine Yields.ite (fun _ => Yields.of_some ?_) (fun _ => Yields.of_none)
    exact hP _ (iff_of_false Bool.false_ne_true hqos)

/-- A body is decoded by kind, and only a SUBSCRIBE decodes to one. -/
theorem decodeBody_yields {P : Packet → Prop} (hconnect : ∀ c, P (.connect c))
    (hpublish : ∀ m : Publish, (m.packetId.isSome = true ↔ 0 < m.qos) →
      P (.publish m)) (hping : P .pingReq) (hdisconnect : P .disconnect)
    (hother : ∀ kind, P (.other kind)) {kind flags : UInt8} {body : List UInt8}
    (hsubscribe : kind = 8 → Yields P (decodeSubscribe body)) :
    Yields P (decodeBody kind flags body) := by
  rw [decodeBody]
  refine Yields.ite (fun _ => decodeConnect_yields hconnect _) fun _ => ?_
  refine Yields.ite (fun _ => decodePublish_yields hpublish _ _) fun _ => ?_
  refine Yields.ite hsubscribe fun _ => ?_
  refine Yields.ite (fun _ => Yields.of_some hping) fun _ => ?_
  exact Yields.ite (fun _ => Yields.of_some hdisconnect)
    fun _ => Yields.of_some (hother _)

end MqttWire

end Aquilo
