namespace GpioBridge

-- A finite map whose entries are in ascending order, so listing them goes by uid.
structure UidMap (β : Type) where
  entries : List (UInt64 × β) := []
  ascending : entries.Pairwise (·.1 < ·.1) := by simp
  deriving Repr

namespace UidMap

variable {β : Type}

instance : Inhabited (UidMap β) := ⟨{ entries := [] }⟩
instance : EmptyCollection (UidMap β) := ⟨{ entries := [] }⟩

def get? (m : UidMap β) (uid : UInt64) : Option β := m.entries.lookup uid

def contains (m : UidMap β) (uid : UInt64) : Bool := (m.get? uid).isSome

def size (m : UidMap β) : Nat := m.entries.length

def isEmpty (m : UidMap β) : Bool := m.entries.isEmpty

def keys (m : UidMap β) : List UInt64 := m.entries.map (·.1)

def values (m : UidMap β) : List β := m.entries.map (·.2)

def insert (m : UidMap β) (uid : UInt64) (value : β) : UidMap β where
  entries := m.entries.filter (·.1 < uid) ++ (uid, value) :: m.entries.filter (uid < ·.1)
  ascending := by
    have h := m.ascending
    simp only [List.pairwise_append, List.pairwise_cons, List.mem_cons, List.mem_filter,
      decide_eq_true_eq]
    refine ⟨h.filter _, ⟨fun a ha => ha.2, h.filter _⟩, fun a ha b hb => ?_⟩
    rcases hb with rfl | hb
    · exact ha.2
    · exact UInt64.lt_trans ha.2 hb.2

def erase (m : UidMap β) (uid : UInt64) : UidMap β where
  entries := m.entries.filter (·.1 != uid)
  ascending := m.ascending.filter _

theorem lookup_eq_some_iff {l : List (UInt64 × β)} (h : l.Pairwise (·.1 < ·.1))
    (uid : UInt64) (value : β) : l.lookup uid = some value ↔ (uid, value) ∈ l := by
  induction l with
  | nil => simp
  | cons first rest ih =>
    obtain ⟨key, held⟩ := first
    rw [List.pairwise_cons] at h
    rw [List.lookup_cons, List.mem_cons]
    by_cases hk : uid = key
    · subst hk
      simp only [beq_self_eq_true, Option.some.injEq, Prod.mk.injEq, true_and]
      refine ⟨fun e => .inl e.symm, fun e => e.elim Eq.symm fun mem => ?_⟩
      exact absurd (h.1 _ mem) (UInt64.lt_irrefl _)
    · simp [beq_eq_false_iff_ne.2 hk, hk, ih h.2]

theorem get?_eq_some_iff (m : UidMap β) (uid : UInt64) (value : β) :
    m.get? uid = some value ↔ (uid, value) ∈ m.entries :=
  lookup_eq_some_iff m.ascending uid value

@[simp]
theorem get?_empty (uid : UInt64) : (∅ : UidMap β).get? uid = none := rfl

theorem get?_insert (m : UidMap β) (uid other : UInt64) (value : β) :
    (m.insert uid value).get? other = if other = uid then some value else m.get? other := by
  apply Option.ext
  intro held
  rw [get?_eq_some_iff]
  by_cases h : other = uid
  · subst h
    simp [insert, UInt64.lt_irrefl, eq_comm]
  · have hne : other < uid ∨ uid < other := by
      rcases Nat.lt_or_gt_of_ne (fun e => h (UInt64.toNat_inj.1 e)) with hl | hg
      · exact .inl (UInt64.lt_iff_toNat_lt.2 hl)
      · exact .inr (UInt64.lt_iff_toNat_lt.2 hg)
    simp only [insert, List.mem_append, List.mem_filter, List.mem_cons, Prod.mk.injEq, h,
      false_and, false_or, decide_eq_true_eq, if_false]
    rw [get?_eq_some_iff]
    exact ⟨fun e => e.elim And.left And.left, fun e => hne.elim (fun l => .inl ⟨e, l⟩)
      fun g => .inr ⟨e, g⟩⟩

theorem get?_erase (m : UidMap β) (uid other : UInt64) :
    (m.erase uid).get? other = if other = uid then none else m.get? other := by
  apply Option.ext
  intro held
  rw [get?_eq_some_iff]
  by_cases h : other = uid <;> simp [erase, h, get?_eq_some_iff]

end UidMap

end GpioBridge
