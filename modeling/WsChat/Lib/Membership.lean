import Mathlib.Data.Set.Insert
import Mathlib.Logic.Function.Basic

/-! A membership relation that is stored twice: a client has a set of rooms, and a room
has a set of members, each of which belongs to one client and one room. -/
namespace Lib

structure Membership (C R M N : Type*) where
  clients : Set C
  rooms : Set R
  joined : C → Set R
  members : R → Set M
  who : M → C
  home : M → R
  name : R → N
  issued : Set M
  built : Set R

namespace Membership
variable {C R M N : Type*}

def issue [DecidableEq M] (g : Membership C R M N) (c : C) (r : R) (m : M) : Membership C R M N :=
  { g with
    who := Function.update g.who m c
    home := Function.update g.home m r
    issued := insert m g.issued }

def enter [DecidableEq C] [DecidableEq R] [DecidableEq M] (g : Membership C R M N) (c : C) (r : R) (m : M) :
    Membership C R M N :=
  let g := g.issue c r m
  { g with
    members := Function.update g.members r (insert m (g.members r))
    joined := Function.update g.joined c (insert r (g.joined c)) }

def expel [DecidableEq C] [DecidableEq R] (g : Membership C R M N) (r : R) (m : M) : Membership C R M N :=
  { g with
    members := Function.update g.members r (g.members r \ {m})
    joined := Function.update g.joined (g.who m) (g.joined (g.who m) \ {r}) }

def withdraw [DecidableEq C] (g : Membership C R M N) (c : C) : Membership C R M N :=
  { g with
    clients := g.clients \ {c}
    joined := Function.update g.joined c ∅
    members := fun r => {m ∈ g.members r | g.who m ≠ c} }

def enroll [DecidableEq C] (g : Membership C R M N) (c : C) : Membership C R M N :=
  { g with
    clients := insert c g.clients
    joined := Function.update g.joined c ∅ }

def found [DecidableEq R] (g : Membership C R M N) (r : R) (name : N) : Membership C R M N :=
  { g with
    rooms := insert r g.rooms
    name := Function.update g.name r name
    members := Function.update g.members r ∅
    built := insert r g.built }

def raze [DecidableEq R] (g : Membership C R M N) (r : R) : Membership C R M N :=
  { g with
    rooms := g.rooms \ {r}
    members := Function.update g.members r ∅
    joined := fun c => g.joined c \ {r} }

/-- The two copies agree, rooms and clients are known, and names are distinct. -/
structure Linked (g : Membership C R M N) : Prop where
  joinedIff : ∀ c r, r ∈ g.joined c ↔ ∃ m ∈ g.members r, g.who m = c
  unique : ∀ r, ∀ m ∈ g.members r, ∀ n ∈ g.members r, g.who m = g.who n → m = n
  registered : ∀ r, ∀ m ∈ g.members r, g.who m ∈ g.clients
  home : ∀ r, ∀ m ∈ g.members r, g.home m = r
  listed : ∀ r, ∀ m ∈ g.members r, r ∈ g.rooms
  names : ∀ r ∈ g.rooms, ∀ s ∈ g.rooms, g.name r = g.name s → r = s
  issued : ∀ r, ∀ m ∈ g.members r, m ∈ g.issued
  built : ∀ r ∈ g.rooms, r ∈ g.built

variable {g : Membership C R M N} {c : C} {r : R} {m : M} {name : N}

theorem Linked.listed_of_joined (h : g.Linked) (hr : r ∈ g.joined c) : r ∈ g.rooms := by
  obtain ⟨m, hm, -⟩ := (h.joinedIff c r).mp hr
  exact h.listed r m hm

theorem Linked.registered_of_joined (h : g.Linked) (hr : r ∈ g.joined c) : c ∈ g.clients := by
  obtain ⟨m, hm, rfl⟩ := (h.joinedIff c r).mp hr
  exact h.registered r m hm

theorem Linked.ne_of_mem (h : g.Linked) (hm : m ∉ g.issued) {r : R} : ∀ n ∈ g.members r, n ≠ m := by
  rintro n hn rfl
  exact hm (h.issued r n hn)

theorem Linked.issue [DecidableEq M] (h : g.Linked) (hm : m ∉ g.issued) : (g.issue c r m).Linked := by
  have hwho : ∀ s, ∀ n ∈ g.members s, (g.issue c r m).who n = g.who n :=
    fun s n hn => Function.update_of_ne (h.ne_of_mem hm n hn) _ _
  refine ⟨?_, ?_, ?_, ?_, h.listed, h.names, ?_, h.built⟩
  · intro d s
    refine (h.joinedIff d s).trans ?_
    constructor
    · rintro ⟨n, hn, he⟩
      exact ⟨n, hn, (hwho s n hn).trans he⟩
    · rintro ⟨n, hn, he⟩
      exact ⟨n, hn, (hwho s n hn).symm.trans he⟩
  · intro s n hn n' hn' he
    rw [hwho s n hn, hwho s n' hn'] at he
    exact h.unique s n hn n' hn' he
  · intro s n hn
    rw [hwho s n hn]
    exact h.registered s n hn
  · intro s n hn
    exact (Function.update_of_ne (h.ne_of_mem hm n hn) _ _).trans (h.home s n hn)
  · exact fun s n hn => Or.inr (h.issued s n hn)

theorem Linked.enter [DecidableEq C] [DecidableEq R] [DecidableEq M] (h : g.Linked) (hm : m ∉ g.issued)
    (hc : c ∈ g.clients) (hr : r ∈ g.rooms) (hcr : r ∉ g.joined c) : (g.enter c r m).Linked := by
  have hi := h.issue (c := c) (r := r) hm
  have hnew : (g.issue c r m).who m = c := Function.update_self ..
  have hmem : ∀ s n, n ∈ (g.enter c r m).members s ↔ n ∈ g.members s ∨ (s = r ∧ n = m) := by
    intro s n
    by_cases hs : s = r
    · subst hs
      simp [Membership.enter, Membership.issue, or_comm]
    · simp [Membership.enter, Membership.issue, hs]
  have hnone : ∀ n ∈ g.members r, (g.issue c r m).who n ≠ c := by
    intro n hn he
    exact hcr ((hi.joinedIff c r).mpr ⟨n, hn, he⟩)
  refine ⟨?_, ?_, ?_, ?_, ?_, h.names, ?_, h.built⟩
  · intro d s
    simp only [hmem]
    have hjoin : s ∈ (g.enter c r m).joined d ↔ s ∈ g.joined d ∨ (d = c ∧ s = r) := by
      by_cases hd : d = c
      · subst hd
        simp [Membership.enter, Membership.issue, or_comm]
      · simp [Membership.enter, Membership.issue, hd]
    rw [hjoin]
    constructor
    · rintro (hs | ⟨rfl, rfl⟩)
      · obtain ⟨n, hn, he⟩ := (hi.joinedIff d s).mp hs
        exact ⟨n, Or.inl hn, he⟩
      · exact ⟨m, Or.inr ⟨rfl, rfl⟩, hnew⟩
    · rintro ⟨n, hn | ⟨rfl, rfl⟩, he⟩
      · exact Or.inl ((hi.joinedIff d s).mpr ⟨n, hn, he⟩)
      · exact Or.inr ⟨he.symm.trans hnew, rfl⟩
  · intro s n hn n' hn' he
    rcases (hmem s n).mp hn with hold | ⟨hs, hnm⟩
    · rcases (hmem s n').mp hn' with hold' | ⟨rfl, rfl⟩
      · exact hi.unique s n hold n' hold' he
      · exact absurd (he.trans hnew) (hnone n hold)
    · subst hs hnm
      rcases (hmem s n').mp hn' with hold' | ⟨-, rfl⟩
      · exact absurd (he.symm.trans hnew) (hnone n' hold')
      · rfl
  · intro s n hn
    rcases (hmem s n).mp hn with hn | ⟨rfl, rfl⟩
    · exact hi.registered s n hn
    · exact (congrArg (· ∈ g.clients) hnew).mpr hc
  · intro s n hn
    rcases (hmem s n).mp hn with hn | ⟨rfl, rfl⟩
    · exact hi.home s n hn
    · exact Function.update_self ..
  · intro s n hn
    rcases (hmem s n).mp hn with hn | ⟨rfl, rfl⟩
    · exact h.listed s n hn
    · exact hr
  · intro s n hn
    rcases (hmem s n).mp hn with hn | ⟨rfl, rfl⟩
    · exact Or.inr (h.issued s n hn)
    · exact Or.inl rfl

theorem Linked.expel [DecidableEq C] [DecidableEq R] (h : g.Linked) (hm : m ∈ g.members r) : (g.expel r m).Linked := by
  have hmem : ∀ s n, n ∈ (g.expel r m).members s ↔ n ∈ g.members s ∧ n ≠ m := by
    intro s n
    by_cases hs : s = r
    · subst hs
      simp [Membership.expel]
    · simp only [Membership.expel, Function.update_of_ne hs]
      constructor
      · intro hn
        refine ⟨hn, ?_⟩
        rintro rfl
        exact hs ((h.home s n hn).symm.trans (h.home r n hm))
      · exact And.left
  refine ⟨?_, ?_, ?_, ?_, ?_, h.names, ?_, h.built⟩
  · intro d s
    simp only [hmem]
    have hjoin : s ∈ (g.expel r m).joined d ↔ s ∈ g.joined d ∧ ¬ (d = g.who m ∧ s = r) := by
      by_cases hd : d = g.who m
      · subst hd
        simp [Membership.expel]
      · simp [Membership.expel, hd]
    rw [hjoin, h.joinedIff d s]
    constructor
    · rintro ⟨⟨n, hn, he⟩, hne⟩
      refine ⟨n, ⟨hn, ?_⟩, he⟩
      rintro rfl
      exact hne ⟨he.symm, (h.home s n hn).symm.trans (h.home r n hm)⟩
    · rintro ⟨n, ⟨hn, hnm⟩, he⟩
      refine ⟨⟨n, hn, he⟩, ?_⟩
      rintro ⟨rfl, rfl⟩
      exact hnm (h.unique s n hn m hm he)
  · exact fun s n hn n' hn' he => h.unique s n ((hmem s n).mp hn).1 n' ((hmem s n').mp hn').1 he
  · exact fun s n hn => h.registered s n ((hmem s n).mp hn).1
  · exact fun s n hn => h.home s n ((hmem s n).mp hn).1
  · exact fun s n hn => h.listed s n ((hmem s n).mp hn).1
  · exact fun s n hn => h.issued s n ((hmem s n).mp hn).1

theorem Linked.withdraw [DecidableEq C] (h : g.Linked) : (g.withdraw c).Linked := by
  refine ⟨?_, ?_, ?_, ?_, ?_, h.names, ?_, h.built⟩
  · intro d s
    by_cases hd : d = c
    · subst hd
      simp [Membership.withdraw]
    · simp only [Membership.withdraw, Function.update_of_ne hd, h.joinedIff d s]
      constructor
      · rintro ⟨m, hm, rfl⟩
        exact ⟨m, ⟨hm, hd⟩, rfl⟩
      · rintro ⟨m, ⟨hm, _⟩, he⟩
        exact ⟨m, hm, he⟩
  · exact fun s n hn n' hn' he => h.unique s n hn.1 n' hn'.1 he
  · exact fun s n hn => ⟨h.registered s n hn.1, hn.2⟩
  · exact fun s n hn => h.home s n hn.1
  · exact fun s n hn => h.listed s n hn.1
  · exact fun s n hn => h.issued s n hn.1

theorem Linked.enroll [DecidableEq C] (h : g.Linked) (hc : c ∉ g.clients) : (g.enroll c).Linked := by
  refine ⟨?_, h.unique, ?_, h.home, h.listed, h.names, h.issued, h.built⟩
  · intro d s
    by_cases hd : d = c
    · subst hd
      simp only [Membership.enroll, Function.update_self, Set.mem_empty_iff_false, false_iff]
      rintro ⟨m, hm, rfl⟩
      exact hc (h.registered s m hm)
    · exact (iff_of_eq (congrArg (s ∈ ·) (Function.update_of_ne hd _ _))).trans (h.joinedIff d s)
  · exact fun s n hn => Or.inr (h.registered s n hn)

theorem Linked.found [DecidableEq R] (h : g.Linked) (hr : r ∉ g.built) (hname : ∀ s ∈ g.rooms, g.name s ≠ name) :
    (g.found r name).Linked := by
  have hne : ∀ s ∈ g.rooms, s ≠ r := by
    rintro s hs rfl
    exact hr (h.built s hs)
  have hmem : ∀ s n, n ∈ (g.found r name).members s ↔ n ∈ g.members s := by
    intro s n
    by_cases hs : s = r
    · subst hs
      simp only [Membership.found, Function.update_self, Set.mem_empty_iff_false, false_iff]
      exact fun hn => hne s (h.listed s n hn) rfl
    · exact iff_of_eq (congrArg (n ∈ ·) (Function.update_of_ne hs _ _))
  refine ⟨?_, ?_, ?_, ?_, ?_, ?_, ?_, ?_⟩
  · intro d s
    simp only [hmem]
    exact h.joinedIff d s
  · exact fun s n hn n' hn' he => h.unique s n ((hmem s n).mp hn) n' ((hmem s n').mp hn') he
  · exact fun s n hn => h.registered s n ((hmem s n).mp hn)
  · exact fun s n hn => h.home s n ((hmem s n).mp hn)
  · exact fun s n hn => Or.inr (h.listed s n ((hmem s n).mp hn))
  · intro s hs t ht he
    simp only [Membership.found] at he
    rcases hs with rfl | hs <;> rcases ht with rfl | ht
    · rfl
    · rw [Function.update_self, Function.update_of_ne (hne t ht)] at he
      exact absurd he.symm (hname t ht)
    · rw [Function.update_self, Function.update_of_ne (hne s hs)] at he
      exact absurd he (hname s hs)
    · rw [Function.update_of_ne (hne s hs), Function.update_of_ne (hne t ht)] at he
      exact h.names s hs t ht he
  · exact fun s n hn => h.issued s n ((hmem s n).mp hn)
  · rintro s (rfl | hs)
    · exact Or.inl rfl
    · exact Or.inr (h.built s hs)

theorem Linked.raze [DecidableEq R] (h : g.Linked) : (g.raze r).Linked := by
  have hmem : ∀ s n, n ∈ (g.raze r).members s ↔ n ∈ g.members s ∧ s ≠ r := by
    intro s n
    by_cases hs : s = r
    · subst hs
      simp [Membership.raze]
    · simp [Membership.raze, hs]
  refine ⟨?_, ?_, ?_, ?_, ?_, ?_, ?_, ?_⟩
  · intro d s
    simp only [hmem]
    refine (and_congr_left fun _ => h.joinedIff d s).trans ?_
    constructor
    · rintro ⟨⟨m, hm, he⟩, hs⟩
      exact ⟨m, ⟨hm, hs⟩, he⟩
    · rintro ⟨m, ⟨hm, hs⟩, he⟩
      exact ⟨⟨m, hm, he⟩, hs⟩
  · exact fun s n hn n' hn' he => h.unique s n ((hmem s n).mp hn).1 n' ((hmem s n').mp hn').1 he
  · exact fun s n hn => h.registered s n ((hmem s n).mp hn).1
  · exact fun s n hn => h.home s n ((hmem s n).mp hn).1
  · exact fun s n hn => ⟨h.listed s n ((hmem s n).mp hn).1, ((hmem s n).mp hn).2⟩
  · exact fun s hs t ht he => h.names s hs.1 t ht.1 he
  · exact fun s n hn => h.issued s n ((hmem s n).mp hn).1
  · exact fun s hs => h.built s hs.1

/-- Who was there before can only leave. -/
structure Onward (g g' : Membership C R M N) : Prop where
  issued : g.issued ⊆ g'.issued
  members : ∀ r, ∀ m ∈ g.issued, m ∈ g'.members r → m ∈ g.members r

theorem Onward.refl (g : Membership C R M N) : g.Onward g := ⟨Set.Subset.refl _, fun _ _ _ h => h⟩

theorem Onward.trans {g' g'' : Membership C R M N} (h : g.Onward g') (h' : g'.Onward g'') : g.Onward g'' :=
  ⟨h.issued.trans h'.issued, fun r m hm hin => h.members r m hm (h'.members r m (h.issued hm) hin)⟩

theorem Onward.issue [DecidableEq M] : g.Onward (g.issue c r m) :=
  ⟨Set.subset_insert m g.issued, fun _ _ _ h => h⟩

theorem Onward.enter [DecidableEq C] [DecidableEq R] [DecidableEq M] (hm : m ∉ g.issued) : g.Onward (g.enter c r m) := by
  refine ⟨Set.subset_insert m g.issued, fun s n hn hin => ?_⟩
  by_cases hs : s = r
  · subst hs
    have hne : n ≠ m := by
      rintro rfl
      exact hm hn
    simpa [Membership.enter, Membership.issue, hne] using hin
  · simpa [Membership.enter, Membership.issue, hs] using hin

theorem Onward.expel [DecidableEq C] [DecidableEq R] : g.Onward (g.expel r m) := by
  refine ⟨Set.Subset.refl _, fun s n _ hin => ?_⟩
  by_cases hs : s = r
  · subst hs
    have hboth : n ∈ g.members s ∧ n ≠ m := by simpa [Membership.expel] using hin
    exact hboth.1
  · simpa [Membership.expel, hs] using hin

theorem Onward.withdraw [DecidableEq C] : g.Onward (g.withdraw c) :=
  ⟨Set.Subset.refl _, fun _ _ _ h => h.1⟩

theorem Onward.found [DecidableEq R] : g.Onward (g.found r name) := by
  refine ⟨Set.Subset.refl _, fun s n _ hin => ?_⟩
  by_cases hs : s = r
  · subst hs
    simp [Membership.found] at hin
  · simpa [Membership.found, hs] using hin

theorem Onward.raze [DecidableEq R] : g.Onward (g.raze r) := by
  refine ⟨Set.Subset.refl _, fun s n _ hin => ?_⟩
  by_cases hs : s = r
  · subst hs
    simp [Membership.raze] at hin
  · simpa [Membership.raze, hs] using hin

end Membership
end Lib
