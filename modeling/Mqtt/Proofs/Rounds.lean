import Mqtt.Proofs.FreeIds

/-!
# Identifiers in turn

The counter takes one number after the other and passes over zero when it comes round. So an
identifier is found within two turns from wherever the counter stands, and 65535 allocations in a
row give out each identifier once.
-/
namespace Mqtt.PacketIds
variable {ids ids' : PacketIds}

/-! ## One allocation -/

/-- The number under the counter, which goes on by one, from 65535 to zero. -/
def turn (ids : PacketIds) : UInt16 × PacketIds := (ids.next, ⟨ids.next + 1⟩)

/-- Turns until a number comes up that is not zero, and how many there were. -/
inductive Draws : PacketIds → (turns : Nat) → UInt16 → PacketIds → Prop
  | takes {ids : PacketIds} (nonzero : ids.next ≠ 0) : Draws ids 1 ids.turn.1 ids.turn.2
  | skips {ids ids' : PacketIds} {turns : Nat} {id : UInt16} (zero : ids.next = 0)
      (later : Draws ids.turn.2 turns id ids') : Draws ids (turns + 1) id ids'

/-- How many turns an allocation takes. -/
def turns (ids : PacketIds) : Nat := if ids.next = 0 then 2 else 1

theorem draws_of_ne_zero (h : ids.next ≠ 0) {k : Nat} {id : UInt16} :
    ids.Draws k id ids' ↔ k = 1 ∧ (id, ids') = ids.turn := by
  constructor
  · intro hdraws
    cases hdraws with
    | takes => exact ⟨rfl, rfl⟩
    | skips zero => exact absurd zero h
  · rintro ⟨rfl, hturn⟩
    obtain ⟨rfl, rfl⟩ := Prod.mk.inj hturn
    exact .takes h

/-- The turns end, after two of them at most, with what is allocated. -/
theorem draws_iff {k : Nat} {id : UInt16} :
    ids.Draws k id ids' ↔ k = ids.turns ∧ (id, ids') = ids.allocate := by
  by_cases hzero : ids.next = 0
  · have hone : ids.turn.2.next ≠ 0 := by
      rw [turn, hzero]
      decide
    have hallocate : ids.allocate = ids.turn.2.turn := by
      rw [allocate, if_pos hzero, turn, turn, hzero]
      rfl
    rw [turns, if_pos hzero, hallocate]
    constructor
    · intro h
      cases h with
      | takes nonzero => exact absurd hzero nonzero
      | skips _ later =>
        obtain ⟨rfl, hid⟩ := (draws_of_ne_zero hone).mp later
        exact ⟨rfl, hid⟩
    · rintro ⟨rfl, hid⟩
      exact .skips hzero ((draws_of_ne_zero hone).mpr ⟨rfl, hid⟩)
  · rw [draws_of_ne_zero hzero, turns, allocate, if_neg hzero, if_neg hzero]
    rfl

theorem turns_le (ids : PacketIds) : ids.turns ≤ 2 := by
  unfold turns
  split <;> decide

/-! ## Allocations in a row -/

theorem allocateOnto_fst (n : Nat) (ids : PacketIds) (listed : List UInt16) :
    (allocateOnto n ids listed).1 = listed.reverse ++ (List.range n).map ids.nth := by
  induction n generalizing ids listed with
  | zero => simp [allocateOnto]
  | succ n ih =>
    have hlater : ids.nth ∘ Nat.succ = ids.allocate.2.nth := rfl
    rw [allocateOnto]
    dsimp only
    rw [ih, List.reverse_cons, List.append_assoc, List.range_succ_eq_map, List.map_cons,
      List.map_map, hlater]
    rfl

theorem allocateMany_fst (ids : PacketIds) (n : Nat) :
    (ids.allocateMany n).1 = (List.range n).map ids.nth :=
  allocateOnto_fst n ids []

/-- A number of the round is given out after that many others. -/
theorem exists_nth (ids : PacketIds) {a : Nat} (low : 1 ≤ a) (high : a ≤ 65535) :
    ∃ k < 65535, (ids.nth k).toNat = a := by
  refine ⟨(a - 1 + (65535 - ids.position % 65535)) % 65535, Nat.mod_lt _ (by decide), ?_⟩
  rw [toNat_nth]
  omega

/-- A round gives out each identifier once, wherever it begins. -/
theorem perm_round (ids : PacketIds) :
    ((ids.allocateMany 65535).1.map UInt16.toNat).Perm (List.range' 1 65535) := by
  have hnodup : ((List.range 65535).map fun k => (ids.nth k).toNat).Nodup := by
    refine List.nodup_range.map_on fun k hk k' hk' hsame => ids.nth_injOn ?_ ?_ ?_
    · exact List.mem_range.mp hk
    · exact List.mem_range.mp hk'
    · exact UInt16.toNat_inj.mp hsame
  rw [allocateMany_fst, List.map_map]
  refine (List.perm_ext_iff_of_nodup hnodup List.nodup_range').mpr fun a => ?_
  rw [List.mem_map, List.mem_range'_1]
  constructor
  · rintro ⟨k, -, rfl⟩
    rw [toNat_nth]
    omega
  · rintro ⟨low, high⟩
    obtain ⟨k, hk, hnth⟩ := ids.exists_nth low (by omega)
    exact ⟨k, List.mem_range.mpr hk, hnth⟩

/-- A fresh counter gives out 1 to 65535 and begins again. From any counter an allocation ends,
after two turns at most, it is never zero, and 65535 of them in a row are each identifier once. -/
theorem allocations_cycle :
    (∀ n, 1 ≤ n → (start.allocateMany n).1[n - 1]?.map UInt16.toNat = some ((n - 1) % 65535 + 1)) ∧
      ∀ ids : PacketIds,
        (∃ turns ≤ 2, ∀ k id ids', ids.Draws k id ids' ↔ k = turns ∧ (id, ids') = ids.allocate) ∧
        ids.allocate.1 ≠ 0 ∧
        ((ids.allocateMany 65535).1.map UInt16.toNat).Perm (List.range' 1 65535) := by
  refine ⟨fun n hn => ?_, fun ids => ⟨?_, allocate_ne_zero ids, perm_round ids⟩⟩
  · have hlt : n - 1 < n := by omega
    have hposition : start.position = 0 := rfl
    rw [allocateMany_fst, List.getElem?_map, List.getElem?_range hlt, Option.map_some,
      Option.map_some, toNat_nth, hposition, Nat.zero_add]
  · exact ⟨ids.turns, ids.turns_le, fun k id ids' => draws_iff⟩

/-- The first identifier of the second round. -/
theorem allocations_cycle_again :
    1 ≤ 65536 ∧ (start.allocateMany 65536).1[65536 - 1]?.map UInt16.toNat = some 1 := by
  have hone : 1 ≤ 65536 := by decide
  exact ⟨hone, allocations_cycle.1 65536 hone⟩

end Mqtt.PacketIds
