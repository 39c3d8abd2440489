/-
What a connection of `observe` answers: to each packet exactly what it is owed,
and at most once, when everything for it has been heard, the three seeds.
-/
import Aquilo.Observe
import Aquilo.PublishRoundTrip
import Aquilo.WirePackets

namespace Aquilo

open Interlude

namespace MqttWire

/-- The two bytes of a packet id. -/
theorem pair_packetId (packetId : UInt16) :
    pair (packetId >>> 8).toUInt8 packetId.toUInt8 = packetId.toNat := by
  have hhi : (packetId >>> 8).toUInt8 = UInt8.ofNat (packetId.toNat >>> 8) := by
    apply UInt8.toNat_inj.mp
    simp
  have hlo : packetId.toUInt8 = UInt8.ofNat packetId.toNat := by
    apply UInt8.toNat_inj.mp
    simp
  have hlt := packetId.toNat_lt
  rw [hhi, hlo, pair_ofNat]
  omega

end MqttWire

namespace Sent

end Sent

/-- What a log sends besides the seeds, in order. -/
def replies (log : List Activity) : List Sent :=
  (log.filterMap Activity.sent?).filter fun m => !m.isSeed

theorem replies_append (xs ys : List Activity) :
    replies (xs ++ ys) = replies xs ++ replies ys := by
  rw [replies, List.filterMap_append, List.filter_append]
  rfl

theorem Packet.replies_exchange (p : Packet) : replies p.exchange = p.owed := by
  have hsent : p.exchange.filterMap Activity.sent? = p.owed := by
    rw [exchange, List.filterMap_cons, Activity.sent?, List.filterMap_map]
    exact List.filterMap_some
  rw [replies, hsent]
  cases p with
  | publish m => cases h : m.packetId <;> simp [owed, h, Sent.isSeed]
  | _ => rfl

theorem replies_exchanges (heard : List Packet) :
    replies (heard.flatMap Packet.exchange) = heard.flatMap Packet.owed := by
  induction heard with
  | nil => rfl
  | cons p heard ih =>
      rw [List.flatMap_cons, List.flatMap_cons, replies_append, ih,
        Packet.replies_exchange]

namespace Observe

variable (codec : Codec)

theorem replies_seedRetained (rid firmware sensor now : String) :
    replies ((seedRetained codec rid firmware sensor now).map .sent) = [] := rfl

/-- A log holds the exchanges alone, or the seeds once between them. -/
theorem observeConnection_cases (opts : OnboardOptions) (written : Bool)
    (reads : List SocketRead) :
    let heard := heardPackets reads
    let log := observeConnection codec opts written reads
    log = heard.flatMap Packet.exchange ∨
      ∃ done rest c firmware now, heard = done ++ rest ∧
        done.findSome? Packet.connect? = some c ∧
        (∃ s, .subscribe s ∈ done) ∧
        done.findSome? (Packet.announced codec) = some firmware ∧
        log = done.flatMap Packet.exchange ++
          (seedRetained codec c.receiverId firmware
            ((done.findSome? (Packet.sensor? codec)).getD c.receiverId)
            now).map .sent ++
          rest.flatMap Packet.exchange := by
  intro heard log
  cases hpoint : seedingPoint codec reads with
  | none => exact Or.inl (observeConnection_of_no_seeding opts hpoint written)
  | some point =>
      obtain ⟨done, now⟩ := point
      obtain ⟨hdue, rest, hheard, hlog⟩ :=
        observeConnection_of_seeding opts hpoint written
      obtain ⟨c, firmware, hc, hs, hfirmware, hseeds⟩ := exists_of_seedDue hdue now
      rw [hseeds] at hlog
      exact Or.inr ⟨done, rest, c, firmware, now, hheard, hc, hs, hfirmware, hlog⟩

/-- Besides the seeds a connection sends the replies it owes, in order. -/
theorem replies_observeConnection (opts : OnboardOptions) (written : Bool)
    (reads : List SocketRead) :
    replies (observeConnection codec opts written reads) =
      (heardPackets reads).flatMap Packet.owed := by
  rcases observeConnection_cases codec opts written reads with
    hlog | ⟨done, rest, c, firmware, now, hheard, -, -, -, hlog⟩
  · rw [hlog, replies_exchanges]
  · rw [hlog, hheard, replies_append, replies_append, replies_exchanges,
      replies_exchanges, replies_seedRetained, List.append_nil,
      List.flatMap_append]

end Observe

end Aquilo
