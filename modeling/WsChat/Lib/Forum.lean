import WsChat.Lib.Membership
import Mathlib.Logic.Relation

/-! A forum: sessions that sit in named rooms, each with rules that say who may do what. What a session may do by
itself, what happens to it, and what strangers cannot do to a room. -/
namespace Lib
open Relation

/-- A session has a line while it is connected, an address, and an account. -/
structure Session (K A U : Type*) where
  line : Option K
  address : A
  account : U

@[ext] structure Forum (C N K A U L : Type*) where
  session : C → Option (Session K A U)
  used : Set C
  room : N → Option L
  seat : Set (C × N)
  saved : N → Option L

/-- Who may do what under the rules of a room. -/
structure Polity (A U L : Type*) where
  guest : U
  charter : U → L
  owns : L → U → Prop
  moderates : L → U → Prop
  admits : L → A → U → Prop
  regulates : L → L → Prop
  appoints : L → L → Prop

structure Polity.Ranked {A U L : Type*} (p : Polity A U L) : Prop where
  owner : ∀ l u, p.owns l u → p.moderates l u

/-- A packet as the forum sees it: who sends it, the accounts that it proves, and the sessions whose token it
presents. -/
structure Request (C U : Type*) where
  sender : C
  proves : Set U
  presents : Set C

/-- Where a step comes from. A request may go unheard. -/
inductive Cause (C U : Type*) where
  | request (q : Request C U)
  | unheard
  | chore
  | save
  | restart

namespace Forum
variable {C N K A U L : Type*}

def empty : Forum C N K A U L := ⟨fun _ => none, ∅, fun _ => none, ∅, fun _ => none⟩

section
variable (f : Forum C N K A U L)

def enter (c : C) (n : N) : Forum C N K A U L := { f with seat := insert (c, n) f.seat }

def leave (c : C) (n : N) : Forum C N K A U L := { f with seat := f.seat \ {(c, n)} }

def save : Forum C N K A U L := { f with saved := f.room }

def restart : Forum C N K A U L :=
  { f with session := fun _ => none, used := ∅, room := f.saved, seat := ∅ }

end

section
variable [DecidableEq N] (f : Forum C N K A U L)

def rule (n : N) (l : L) : Forum C N K A U L := { f with room := Function.update f.room n (some l) }

def raze (n : N) : Forum C N K A U L :=
  { f with room := Function.update f.room n none, seat := {x | x ∈ f.seat ∧ x.2 ≠ n} }

end

section
variable [DecidableEq C] (f : Forum C N K A U L)

def arrive (c : C) (s : Session K A U) : Forum C N K A U L :=
  { f with session := Function.update f.session c (some s), used := insert c f.used }

def amend (c : C) (g : Session K A U → Session K A U) : Forum C N K A U L :=
  { f with session := Function.update f.session c ((f.session c).map g) }

def drop (c : C) : Forum C N K A U L :=
  { f with session := Function.update f.session c none, seat := {x | x ∈ f.seat ∧ x.1 ≠ c} }

def resume (c t : C) (k : K) (a : A) : Forum C N K A U L :=
  (f.drop c).amend t fun s => { s with line := some k, address := a }

end

variable (p : Polity A U L)

/-- What a request may do. -/
inductive Move [DecidableEq C] [DecidableEq N] (q : Request C U) (f : Forum C N K A U L) : Forum C N K A U L → Prop
  | enter (n : N) (s : Session K A U) (l : L) (hs : f.session q.sender = some s) (hl : f.room n = some l)
      (hout : (q.sender, n) ∉ f.seat) (hin : p.admits l s.address s.account) : Move q f (f.enter q.sender n)
  | leave (n : N) (hin : (q.sender, n) ∈ f.seat) : Move q f (f.leave q.sender n)
  | expel (d : C) (n : N) (s : Session K A U) (l : L) (hs : f.session q.sender = some s) (hl : f.room n = some l)
      (hin : (q.sender, n) ∈ f.seat) (hright : p.moderates l s.account) (hd : (d, n) ∈ f.seat) : Move q f (f.leave d n)
  | regulate (n : N) (s : Session K A U) (l l' : L) (hs : f.session q.sender = some s) (hl : f.room n = some l)
      (hin : (q.sender, n) ∈ f.seat) (hright : p.moderates l s.account) (hrule : p.regulates l l') :
      Move q f (f.rule n l')
  | appoint (n : N) (s : Session K A U) (l l' : L) (hs : f.session q.sender = some s) (hl : f.room n = some l)
      (hin : (q.sender, n) ∈ f.seat) (hright : p.owns l s.account) (hrule : p.appoints l l') : Move q f (f.rule n l')
  | found (n : N) (s : Session K A U) (hs : f.session q.sender = some s) (hmember : s.account ≠ p.guest)
      (hl : f.room n = none) : Move q f (f.rule n (p.charter s.account))
  | raze (n : N) (s : Session K A U) (l : L) (hs : f.session q.sender = some s) (hl : f.room n = some l)
      (hright : p.owns l s.account) : Move q f (f.raze n)
  | resume (t : C) (s s' : Session K A U) (k : K) (hs : f.session q.sender = some s) (hk : s.line = some k)
      (ht : f.session t = some s') (hct : q.sender ≠ t) (htoken : t ∈ q.presents) :
      Move q f (f.resume q.sender t k s.address)

/-- What happens to sessions without their doing. -/
inductive Chore [DecidableEq C] (f : Forum C N K A U L) : Forum C N K A U L → Prop
  | arrive (c : C) (k : K) (a : A) (hc : c ∉ f.used) : Chore f (f.arrive c ⟨some k, a, p.guest⟩)
  | cut (c : C) (s : Session K A U) (hs : f.session c = some s) : Chore f (f.amend c fun s => { s with line := none })
  | drop (c : C) (s : Session K A U) (hs : f.session c = some s) : Chore f (f.drop c)

abbrev Moves [DecidableEq C] [DecidableEq N] (q : Request C U) : Forum C N K A U L → Forum C N K A U L → Prop :=
  ReflTransGen (Move p q)

abbrev Chores [DecidableEq C] : Forum C N K A U L → Forum C N K A U L → Prop := ReflTransGen (Chore p)

/-- One turn of the forum: a session moves, or gets an account that it proved, or nothing is heard, or it is the
turn of the forum itself. -/
inductive Turn [DecidableEq C] [DecidableEq N] (f : Forum C N K A U L) : Cause C U → Forum C N K A U L → Prop
  | moves {f' : Forum C N K A U L} (q : Request C U) (h : Moves p q f f') : Turn f (.request q) f'
  | identify (q : Request C U) (s : Session K A U) (u : U) (hs : f.session q.sender = some s) (hu : u ∈ q.proves) :
      Turn f (.request q) (f.amend q.sender fun s => { s with account := u })
  | unheard : Turn f .unheard f
  | chores {f' : Forum C N K A U L} (h : Chores p f f') : Turn f .chore f'
  | save : Turn f .save f.save
  | restart : Turn f .restart f.restart

def Stranger (f : Forum C N K A U L) (c : C) (n : N) : Prop :=
  ∀ s l, f.session c = some s → f.room n = some l → ¬ p.moderates l s.account

/-- The room keeps its rules, and whoever sits there, acts not, and stays, sits there still. -/
structure Keeps (n : N) (active : Set C) (f f' : Forum C N K A U L) : Prop where
  room : f'.room n = f.room n
  used : f.used ⊆ f'.used
  gone : ∀ d ∈ f.used, f.session d = none → f'.session d = none
  seats : ∀ d ∈ f.used, d ∉ active → (d, n) ∈ f.seat → f'.session d ≠ none → (d, n) ∈ f'.seat

section
variable {f f' f'' : Forum C N K A U L} {n : N} {active : Set C}

theorem Keeps.refl (n : N) (active : Set C) (f : Forum C N K A U L) : Keeps n active f f :=
  ⟨rfl, Set.Subset.refl _, fun _ _ h => h, fun _ _ _ h _ => h⟩

theorem Keeps.trans (h : Keeps n active f f') (h' : Keeps n active f' f'') : Keeps n active f f'' where
  room := h'.room.trans h.room
  used := h.used.trans h'.used
  gone := fun d hd hnone => h'.gone d (h.used hd) (h.gone d hd hnone)
  seats := by
    intro d hd hidle hseat hstays
    have hthere : f'.session d ≠ none := fun hnone => hstays (h'.gone d (h.used hd) hnone)
    exact h'.seats d (h.used hd) hidle (h.seats d hd hidle hseat hthere) hstays

theorem Keeps.mono {active' : Set C} (h : Keeps n active f f') (hsub : active ⊆ active') : Keeps n active' f f' :=
  ⟨h.room, h.used, h.gone, fun d hd hidle => h.seats d hd fun hin => hidle (hsub hin)⟩

theorem Keeps.of_sessions (hroom : f'.room n = f.room n) (hused : f'.used = f.used) (hsession : f'.session = f.session)
    (hseats : ∀ d, d ∉ active → (d, n) ∈ f.seat → (d, n) ∈ f'.seat) : Keeps n active f f' :=
  ⟨hroom, hused.ge, fun d _ hnone => by rw [hsession]; exact hnone, fun d _ hidle hseat _ => hseats d hidle hseat⟩

end

section
variable [DecidableEq C] {p : Polity A U L} {f f' : Forum C N K A U L} {c d : C} {n : N} {active : Set C}

@[simp] theorem session_drop (d : C) : (f.drop c).session d = if d = c then none else f.session d := by
  by_cases hd : d = c
  · simp [drop, hd]
  · simp [drop, hd]

@[simp] theorem session_amend (g : Session K A U → Session K A U) (d : C) :
    (f.amend c g).session d = if d = c then (f.session d).map g else f.session d := by
  by_cases hd : d = c
  · subst hd
    simp [amend]
  · simp [amend, hd]

theorem Keeps.amend (g : Session K A U → Session K A U) : Keeps n active f (f.amend c g) := by
  refine ⟨rfl, Set.Subset.refl _, fun d _ hnone => ?_, fun _ _ _ hseat _ => hseat⟩
  simp [hnone]

theorem Keeps.drop : Keeps n active f (f.drop c) := by
  refine ⟨rfl, Set.Subset.refl _, fun d _ hnone => ?_, fun d _ _ hseat hstays => ⟨hseat, ?_⟩⟩
  · simp [hnone]
  · intro hd
    exact hstays (by simp [show d = c from hd])

theorem Stranger.amend {g : Session K A U → Session K A U} (hg : ∀ s, (g s).account = s.account)
    (h : f.Stranger p c n) : (f.amend d g).Stranger p c n := by
  intro s l hs hl
  rw [session_amend] at hs
  split at hs
  · obtain ⟨s', hs', rfl⟩ := Option.map_eq_some_iff.mp hs
    rw [hg]
    exact h s' l hs' hl
  · exact h s l hs hl

theorem Stranger.drop (h : f.Stranger p c n) : (f.drop d).Stranger p c n := by
  intro s l hs hl
  rw [session_drop] at hs
  split at hs
  · cases hs
  · exact h s l hs hl

theorem Chore.keeps (h : Chore p f f') : Keeps n active f f' := by
  cases h with
  | arrive c k a hc =>
    refine ⟨rfl, Set.subset_insert c f.used, fun d hd hnone => ?_, fun _ _ _ hseat _ => hseat⟩
    have hne : d ≠ c := by
      intro he
      exact hc (he ▸ hd)
    simpa [Forum.arrive, hne] using hnone
  | cut c => exact .amend _
  | drop c => exact .drop

theorem Chores.keeps (h : Chores p f f') : Keeps n active f f' := by
  induction h with
  | refl => exact .refl n active f
  | tail _ hchore ih => exact ih.trans hchore.keeps

end

section
variable [DecidableEq C] [DecidableEq N] {p : Polity A U L} {q : Request C U} {f f' : Forum C N K A U L} {n : N} {l : L}
  {active : Set C}

theorem Move.keeps (hp : p.Ranked) (hl : f.room n = some l) (hno : f.Stranger p q.sender n)
    (h : Move p q f f') : Keeps n {q.sender} f f' ∧ f'.Stranger p q.sender n := by
  have hrule : ∀ n' l', n' ≠ n → Keeps n {q.sender} f (f.rule n' l') ∧ (f.rule n' l').Stranger p q.sender n := by
    intro n' l' hne
    have hroom : (f.rule n' l').room n = f.room n := by simp [Forum.rule, Ne.symm hne]
    refine ⟨.of_sessions hroom rfl rfl fun _ _ hseat => hseat, fun s l'' hs hl'' => ?_⟩
    rw [hroom] at hl''
    exact hno s l'' hs hl''
  cases h with
  | enter n' => exact ⟨.of_sessions rfl rfl rfl fun d _ hseat => .inr hseat, hno⟩
  | leave n' hin =>
    refine ⟨.of_sessions rfl rfl rfl fun d hd hseat => ⟨hseat, fun he => hd ?_⟩, hno⟩
    exact congrArg Prod.fst he
  | expel d n' s l' hs hl' hin hright =>
    refine ⟨.of_sessions rfl rfl rfl fun d' _ hseat => ⟨hseat, fun he => ?_⟩, hno⟩
    have hn : n = n' := congrArg Prod.snd he
    subst hn
    exact hno s l' hs hl' hright
  | regulate n' s l₁ l' hs hl' hin hright =>
    refine hrule n' l' fun hn => ?_
    subst hn
    exact hno s l₁ hs hl' hright
  | appoint n' s l₁ l' hs hl' hin hright =>
    refine hrule n' l' fun hn => ?_
    subst hn
    exact hno s l₁ hs hl' (hp.owner _ _ hright)
  | found n' s hs hmember hl' =>
    refine hrule n' _ fun hn => ?_
    subst hn
    rw [hl] at hl'
    cases hl'
  | raze n' s l' hs hl' hright =>
    have hne : n' ≠ n := by
      intro hn
      subst hn
      exact hno s l' hs hl' (hp.owner _ _ hright)
    have hroom : (f.raze n').room n = f.room n := by simp [Forum.raze, Ne.symm hne]
    refine ⟨.of_sessions hroom rfl rfl fun d _ hseat => ⟨hseat, Ne.symm hne⟩, fun s l'' hs hl'' => ?_⟩
    rw [hroom] at hl''
    exact hno s l'' hs hl''
  | resume t s s' k => exact ⟨Keeps.drop.trans (.amend _), hno.drop.amend fun _ => rfl⟩

theorem Moves.keeps (hp : p.Ranked) (hl : f.room n = some l) (hno : f.Stranger p q.sender n) (h : Moves p q f f') :
    Keeps n {q.sender} f f' := by
  suffices hboth : Keeps n {q.sender} f f' ∧ f'.Stranger p q.sender n from hboth.1
  induction h with
  | refl => exact ⟨.refl n {q.sender} f, hno⟩
  | tail _ hmove ih =>
    obtain ⟨hkeeps, hstill⟩ := hmove.keeps hp (ih.1.room.trans hl) ih.2
    exact ⟨ih.1.trans hkeeps, hstill⟩

/-- A turn that no one with a right over the room takes, and that is no restart, leaves the room as it is. -/
theorem Turn.keeps {cause : Cause C U} (hp : p.Ranked) (h : Turn p f cause f') (hl : f.room n = some l)
    (hactive : ∀ q, cause = .request q → f.Stranger p q.sender n ∧ q.sender ∈ active) (hrun : cause ≠ .restart) :
    Keeps n active f f' := by
  cases h with
  | moves q h =>
    obtain ⟨hno, hsender⟩ := hactive q rfl
    exact (Moves.keeps hp hl hno h).mono (Set.singleton_subset_iff.mpr hsender)
  | identify q => exact .amend _
  | unheard => exact .refl n active f
  | chores h => exact Chores.keeps h
  | save => exact .of_sessions rfl rfl rfl fun _ _ hseat => hseat
  | restart => exact absurd rfl hrun

end
end Forum

namespace Membership
variable {C R M N : Type*} {g : Membership C R M N} {c : C} {r : R} {m : M} {name : N}

def seats (g : Membership C R M N) : Set (C × N) := {x | ∃ r ∈ g.joined x.1, g.name r = x.2}

theorem seats_enter [DecidableEq C] [DecidableEq R] [DecidableEq M] :
    (g.enter c r m).seats = insert (c, g.name r) g.seats := by
  ext ⟨d, n⟩
  have hjoined : ∀ s, s ∈ (g.enter c r m).joined d ↔ s ∈ g.joined d ∨ d = c ∧ s = r := by
    intro s
    by_cases hd : d = c
    · subst hd
      simp [enter, issue, or_comm]
    · simp [enter, issue, hd]
  constructor
  · rintro ⟨s, hs, rfl⟩
    cases (hjoined s).mp hs with
    | inl hold => exact .inr ⟨s, hold, rfl⟩
    | inr hnew =>
      obtain ⟨rfl, rfl⟩ := hnew
      exact .inl rfl
  · intro h
    cases h with
    | inl hnew =>
      obtain ⟨rfl, rfl⟩ := Prod.mk.inj hnew
      exact ⟨r, (hjoined r).mpr (.inr ⟨rfl, rfl⟩), rfl⟩
    | inr hold =>
      obtain ⟨s, hs, hn⟩ := hold
      exact ⟨s, (hjoined s).mpr (.inl hs), hn⟩

theorem Linked.seats_expel [DecidableEq C] [DecidableEq R] (h : g.Linked) (hr : r ∈ g.rooms) :
    (g.expel r m).seats = g.seats \ {(g.who m, g.name r)} := by
  ext ⟨d, n⟩
  have hjoined : ∀ s, s ∈ (g.expel r m).joined d ↔ s ∈ g.joined d ∧ ¬ (d = g.who m ∧ s = r) := by
    intro s
    by_cases hd : d = g.who m
    · subst hd
      simp [Membership.expel]
    · simp [Membership.expel, hd]
  constructor
  · rintro ⟨s, hs, rfl⟩
    obtain ⟨hin, hne⟩ := (hjoined s).mp hs
    refine ⟨⟨s, hin, rfl⟩, fun he => hne ?_⟩
    obtain ⟨hd, hname⟩ := Prod.mk.inj he
    exact ⟨hd, h.names s (h.listed_of_joined hin) r hr hname⟩
  · rintro ⟨⟨s, hs, rfl⟩, hne⟩
    refine ⟨s, (hjoined s).mpr ⟨hs, ?_⟩, rfl⟩
    rintro ⟨rfl, rfl⟩
    exact hne rfl

theorem seats_withdraw [DecidableEq C] : (g.withdraw c).seats = {x | x ∈ g.seats ∧ x.1 ≠ c} := by
  ext ⟨d, n⟩
  by_cases hd : d = c
  · subst hd
    simp [seats, withdraw]
  · simp [seats, withdraw, hd]

theorem Linked.seats_enroll [DecidableEq C] (h : g.Linked) (hc : c ∉ g.clients) : (g.enroll c).seats = g.seats := by
  ext ⟨d, n⟩
  have hjoined : (g.enroll c).joined d = g.joined d := by
    by_cases hd : d = c
    · subst hd
      simp only [Membership.enroll, Function.update_self]
      exact (Set.eq_empty_iff_forall_notMem.mpr fun s hs => hc (h.registered_of_joined hs)).symm
    · simp [Membership.enroll, hd]
  simp only [seats, Set.mem_ofPred_eq, hjoined]
  rfl

theorem Linked.seats_found [DecidableEq R] (h : g.Linked) (hr : r ∉ g.built) : (g.found r name).seats = g.seats := by
  have hname : ∀ c, ∀ s ∈ g.joined c, (g.found r name).name s = g.name s := by
    intro c s hs
    have hne : s ≠ r := by
      rintro rfl
      exact hr (h.built s (h.listed_of_joined hs))
    simp [Membership.found, hne]
  ext ⟨d, n⟩
  constructor
  · rintro ⟨s, hs, hn⟩
    exact ⟨s, hs, (hname d s hs).symm.trans hn⟩
  · rintro ⟨s, hs, hn⟩
    exact ⟨s, hs, (hname d s hs).trans hn⟩

theorem Linked.seats_raze [DecidableEq R] (h : g.Linked) (hr : r ∈ g.rooms) :
    (g.raze r).seats = {x | x ∈ g.seats ∧ x.2 ≠ g.name r} := by
  ext ⟨d, n⟩
  constructor
  · rintro ⟨s, ⟨hs, hne⟩, rfl⟩
    exact ⟨⟨s, hs, rfl⟩, fun hname => hne (h.names s (h.listed_of_joined hs) r hr hname)⟩
  · rintro ⟨⟨s, hs, rfl⟩, hne⟩
    refine ⟨s, ⟨hs, ?_⟩, rfl⟩
    rintro rfl
    exact hne rfl

end Membership
end Lib
