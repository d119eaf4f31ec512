import WsChat.Numbers

/-! Addresses as arguments: the longest dotted text at the front of the argument is taken, and
bans of addresses act when somebody joins. -/
namespace WsChat
open Lib ClientsManager

def Octet (a : Bytes) : Prop := (∀ b ∈ a, isDigit b) ∧ 1 ≤ a.length ∧ a.length ≤ 3

def Dotted (u : Bytes) : Prop :=
  ∃ a b c d, Octet a ∧ Octet b ∧ Octet c ∧ Octet d ∧ u = a ++ 46 :: (b ++ 46 :: (c ++ 46 :: d))

/-- The longest dotted text at the front. -/
structure LongestDotted (s u : Bytes) : Prop where
  dotted : Dotted u
  front : u <+: s
  longest : ∀ v, Dotted v → v <+: s → v.length ≤ u.length

def Octets : Nat → Bytes → Prop
  | 0, w => w = []
  | k + 1, w => ∃ a v, Octet a ∧ Octets k v ∧ w = a ++ 46 :: v

theorem dotted_iff (u : Bytes) : Dotted u ↔ ∃ w d, Octets 3 w ∧ Octet d ∧ u = w ++ d := by
  constructor
  · intro h
    obtain ⟨a, b, c, d, ha, hb, hc, hd, hu⟩ := h
    refine ⟨a ++ 46 :: (b ++ 46 :: (c ++ 46 :: [])), d, ?_, hd, by simp [hu]⟩
    exact ⟨a, _, ha, ⟨b, _, hb, ⟨c, _, hc, rfl, rfl⟩, rfl⟩, rfl⟩
  · intro h
    obtain ⟨w, d, ⟨a, _, ha, ⟨b, _, hb, ⟨c, _, hc, rfl, rfl⟩, rfl⟩, rfl⟩, hd, hu⟩ := h
    exact ⟨a, b, c, d, ha, hb, hc, hd, by simp [hu]⟩

theorem Octet.takeWhile {a : Bytes} (h : Octet a) (rest : Bytes) : (a ++ 46 :: rest).takeWhile isDigit = a := by
  rw [List.takeWhile_append_of_pos h.1, List.takeWhile_cons_of_neg (by decide), List.append_nil]

theorem Octet.unique {a a' r r' : Bytes} (h : Octet a) (h' : Octet a') (he : a ++ 46 :: r = a' ++ 46 :: r') :
    a = a' ∧ r = r' := by
  have ha : a = a' := by
    rw [← h.takeWhile r, he, h'.takeWhile]
  subst ha
  exact ⟨rfl, List.tail_eq_of_cons_eq (List.append_cancel_left he)⟩

theorem Octets.unique {k : Nat} {w w' r r' : Bytes} (h : Octets k w) (h' : Octets k w') (he : w ++ r = w' ++ r') :
    w = w' ∧ r = r' := by
  induction k generalizing w w' with
  | zero =>
    rw [h, h'] at he
    exact ⟨h.trans h'.symm, he⟩
  | succ k ih =>
    obtain ⟨a, v, ha, hv, rfl⟩ := h
    obtain ⟨a', v', ha', hv', rfl⟩ := h'
    rw [List.append_assoc, List.append_assoc] at he
    obtain ⟨rfl, hrest⟩ := ha.unique ha' he
    obtain ⟨rfl, hr⟩ := ih hv hv' hrest
    exact ⟨rfl, hr⟩

namespace Rx
open Regex

def octet : Regex UInt8 := .group 1 (.seq (.rep 1 (some 3) digit) (lit 46))

theorem run_octet {p : Pos UInt8} {a rest : Bytes} (ha : Octet a) (hp : p.rest = a ++ 46 :: rest) :
    ∃ q, octet.run p = [q] ∧ q.rest = rest ∧ q.seen = (a ++ [46]).reverse ++ p.seen := by
  have hreach : reach isDigit (some 3) p.rest = a.length := by
    rw [reach, hp, ha.takeWhile]
    have := ha.2.2
    omega
  have hget : p.rest[a.length]? = some 46 := by
    rw [hp, List.getElem?_append_right (le_refl _), Nat.sub_self]
    rfl
  have hdot := run_rep_lit isDigit 1 (some 3) (by simp) (b := 46) (by decide) p
  rw [hreach, if_pos ⟨ha.2.1, hget⟩] at hdot
  have hrun : octet.run p = [{ p.skip (a.length + 1) with
      caps := (1, p.since (p.skip (a.length + 1))) :: (p.skip (a.length + 1)).caps }] := by
    rw [octet, Regex.run, digit, hdot]
    rfl
  refine ⟨_, hrun, ?_, ?_⟩
  · simp [hp]
  · simp [Pos.skip, hp, List.take_append]

theorem take_reach {max : Option Nat} {s : Bytes} : ∀ b ∈ s.take (reach isDigit max s), isDigit b := by
  intro b hb
  obtain ⟨i, hi⟩ := List.mem_iff_getElem?.mp hb
  rw [List.getElem?_take] at hi
  by_cases hlt : i < reach isDigit max s
  · obtain ⟨a, ha, hdigit⟩ := reach_get hlt
    rw [if_pos hlt, ha] at hi
    exact Option.some.inj hi ▸ hdigit
  · rw [if_neg hlt] at hi
    cases hi

theorem le_reach {d : Bytes} (hd : Octet d) (t : Bytes) : d.length ≤ reach isDigit (some 3) (d ++ t) := by
  rw [reach, List.takeWhile_append_of_pos hd.1, List.length_append]
  have := hd.2.2
  omega

theorem run_octet_none {p : Pos UInt8} (h : ∀ a rest, Octet a → p.rest ≠ a ++ 46 :: rest) : octet.run p = [] := by
  have hdot := run_rep_lit isDigit 1 (some 3) (by simp) (b := 46) (by decide) p
  rw [if_neg] at hdot
  · rw [octet, Regex.run, digit, hdot]
    rfl
  · intro hmatch
    obtain ⟨hpos, hget⟩ := hmatch
    obtain ⟨hlt, he⟩ := List.getElem?_eq_some_iff.mp hget
    have hlen : (p.rest.take (reach isDigit (some 3) p.rest)).length = reach isDigit (some 3) p.rest :=
      List.length_take_of_le hlt.le
    refine h (p.rest.take (reach isDigit (some 3) p.rest)) (p.rest.drop (reach isDigit (some 3) p.rest + 1))
      ⟨take_reach, ?_, ?_⟩ ?_
    · rw [hlen]
      exact hpos
    · rw [hlen]
      exact Nat.min_le_left 3 _
    · rw [← he, ← List.drop_eq_getElem_cons hlt, List.take_append_drop]

theorem times_octet (k : Nat) (p : Pos UInt8) :
    (∃ w q, Octets k w ∧ times octet.run k p = [q] ∧ p.rest = w ++ q.rest ∧ q.seen = w.reverse ++ p.seen) ∨
      (times octet.run k p = [] ∧ ∀ w rest, Octets k w → p.rest ≠ w ++ rest) := by
  induction k generalizing p with
  | zero => exact .inl ⟨[], p, rfl, rfl, rfl, rfl⟩
  | succ k ih =>
    by_cases hoctet : ∃ a rest, Octet a ∧ p.rest = a ++ 46 :: rest
    · obtain ⟨a, rest, ha, hp⟩ := hoctet
      obtain ⟨q, hrun, hrest, hseen⟩ := run_octet ha hp
      rw [times, hrun, List.flatMap_singleton]
      cases ih q with
      | inl h =>
        obtain ⟨w, q', hw, hq', hrest', hseen'⟩ := h
        refine .inl ⟨a ++ 46 :: w, q', ⟨a, w, ha, hw, rfl⟩, hq', ?_, ?_⟩
        · rw [hp, ← hrest, hrest', List.append_assoc, List.cons_append]
        · simp [hseen', hseen]
      | inr h =>
        refine .inr ⟨h.1, ?_⟩
        intro w rest' hw hp'
        obtain ⟨a', v, ha', hv, rfl⟩ := hw
        rw [hp, List.append_assoc, List.cons_append] at hp'
        obtain ⟨rfl, hv'⟩ := ha.unique ha' hp'
        exact h.2 v rest' hv (hrest.trans hv')
    · have hnone := run_octet_none fun a rest ha hp => hoctet ⟨a, rest, ha, hp⟩
      rw [times, hnone, List.flatMap_nil]
      refine .inr ⟨rfl, ?_⟩
      intro w rest hw hp
      obtain ⟨a, v, ha, hv, rfl⟩ := hw
      exact hoctet ⟨a, v ++ rest, ha, by rw [hp, List.append_assoc, List.cons_append]⟩

/-- The search for an address finds the longest dotted text at the front, if there is any. -/
theorem ip_search (s : Bytes) :
    (∃ mt, Rx.ip.search s = some mt ∧ LongestDotted s mt.text) ∨
      (Rx.ip.search s = none ∧ ∀ u, Dotted u → ¬ u <+: s) := by
  have hrun : (Regex.seq (.rep 3 (some 3) octet) (.rep 1 (some 3) digit)).run ⟨[], s, []⟩ =
      (times octet.run 3 ⟨[], s, []⟩).flatMap (Regex.run (.rep 1 (some 3) (.cls isDigit))) := by
    rw [Regex.run, Regex.run, iterate_exact _ (by omega)]
    rfl
  have hsearch : Rx.ip.search s = _ := search_bol (.seq (.rep 3 (some 3) octet) (.rep 1 (some 3) digit)) s
  rw [hrun] at hsearch
  cases times_octet 3 ⟨[], s, []⟩ with
  | inl h =>
    obtain ⟨w, q, hw, hq, hrest, hseen⟩ := h
    rw [hq, List.flatMap_singleton, head_run_rep isDigit 1 (some 3) (by simp)] at hsearch
    by_cases hreach : 1 ≤ reach isDigit (some 3) q.rest
    · rw [if_pos hreach, Option.map_some] at hsearch
      refine .inl ⟨_, hsearch, ?_⟩
      have htext : Pos.since ⟨[], s, []⟩ (q.skip (reach isDigit (some 3) q.rest)) =
          w ++ q.rest.take (reach isDigit (some 3) q.rest) := by
        apply Pos.since_eq
        simp [Pos.skip, hseen]
      have hlen : (q.rest.take (reach isDigit (some 3) q.rest)).length = reach isDigit (some 3) q.rest :=
        List.length_take_of_le (reach_le_length _ _ _)
      change LongestDotted s (Pos.since _ _)
      rw [htext]
      refine ⟨(dotted_iff _).mpr ⟨w, _, hw, ⟨take_reach, ?_, ?_⟩, rfl⟩, ?_, ?_⟩
      · rw [hlen]
        exact hreach
      · rw [hlen]
        exact Nat.min_le_left 3 _
      · exact ⟨_, by rw [List.append_assoc, List.take_append_drop]; exact hrest.symm⟩
      · intro v hv hfront
        obtain ⟨w', d, hw', hd, rfl⟩ := (dotted_iff v).mp hv
        obtain ⟨t, ht⟩ := hfront
        rw [List.append_assoc] at ht
        obtain ⟨rfl, hq'⟩ := hw'.unique hw (ht.trans hrest)
        have hle := le_reach hd t
        rw [hq'] at hle
        rw [List.length_append, List.length_append, hlen]
        omega
    · rw [if_neg hreach] at hsearch
      refine .inr ⟨hsearch, ?_⟩
      intro u hu hfront
      obtain ⟨w', d, hw', hd, rfl⟩ := (dotted_iff u).mp hu
      obtain ⟨t, ht⟩ := hfront
      rw [List.append_assoc] at ht
      obtain ⟨rfl, hq'⟩ := hw'.unique hw (ht.trans hrest)
      exact hreach (hq' ▸ hd.2.1.trans (le_reach hd t))
  | inr h =>
    rw [h.1] at hsearch
    refine .inr ⟨hsearch, ?_⟩
    intro u hu hfront
    obtain ⟨w, d, hw, -, rfl⟩ := (dotted_iff u).mp hu
    obtain ⟨t, ht⟩ := hfront
    exact h.2 w (d ++ t) hw (by rw [← ht, List.append_assoc])

end Rx

theorem Octet.not_space {a : Bytes} (h : Octet a) : ∀ b ∈ a, ¬ isSpace b :=
  fun b hb => not_isSpace_of_isDigit (h.1 b hb)

theorem Octets.not_space {k : Nat} {w : Bytes} (h : Octets k w) : ∀ b ∈ w, ¬ isSpace b := by
  induction k generalizing w with
  | zero =>
    rw [h]
    simp
  | succ k ih =>
    obtain ⟨a, v, ha, hv, rfl⟩ := h
    intro b hb
    cases List.mem_append.mp hb with
    | inl hb => exact ha.not_space b hb
    | inr hb =>
      cases List.mem_cons.mp hb with
      | inl he =>
        rw [he]
        decide
      | inr hb => exact ih hv b hb

theorem Dotted.front_iff {u : Bytes} (h : Dotted u) (s : Bytes) : u <+: firstWord s ↔ u <+: s := by
  have hnot : ∀ b ∈ u, (!isSpace b) = true := by
    obtain ⟨w, d, hw, hd, rfl⟩ := (dotted_iff u).mp h
    intro b hb
    cases List.mem_append.mp hb with
    | inl hb => simpa using hw.not_space b hb
    | inr hb => simpa using hd.not_space b hb
  constructor
  · intro hfront
    exact hfront.trans (List.takeWhile_prefix _)
  · intro hfront
    obtain ⟨t, rfl⟩ := hfront
    rw [firstWord, List.takeWhile_append_of_pos hnot]
    exact List.prefix_append u _

theorem longestDotted_firstWord (s u : Bytes) : LongestDotted (firstWord s) u ↔ LongestDotted s u := by
  constructor
  · intro h
    exact ⟨h.dotted, (h.dotted.front_iff s).mp h.front,
      fun v hv hfront => h.longest v hv ((hv.front_iff s).mpr hfront)⟩
  · intro h
    exact ⟨h.dotted, (h.dotted.front_iff s).mpr h.front,
      fun v hv hfront => h.longest v hv ((hv.front_iff s).mp hfront)⟩

theorem LongestDotted.unique {s u v : Bytes} (h : LongestDotted s u) (h' : LongestDotted s v) : u = v := by
  have hlen : u.length = v.length := le_antisymm (h'.longest u h.dotted h.front) (h.longest v h'.dotted h'.front)
  exact (List.prefix_of_prefix_length_le h.front h'.front hlen.le).eq_of_length hlen

theorem Dotted.whole {s u : Bytes} (h : Dotted s) (hu : LongestDotted s u) : u = s :=
  hu.unique ⟨h, List.prefix_refl s, fun _ _ hfront => hfront.length_le⟩

section
variable {env : Env} {w w₁ : World} {e : Event} {m : MemberPtr} {arg u : Bytes} {parser : RegexParser}

theorem Command.withIp_eq (hat : parser.At arg) (hu : LongestDotted arg u) (refusal : Bytes) (act : Bytes → World) :
    Command.withIp w m parser refusal act = act u := by
  cases Rx.ip_search arg with
  | inl h =>
    obtain ⟨mt, hmt, hlongest⟩ := h
    have hne : parser.nextInput ≠ [] := by
      rw [hat.next]
      intro hnil
      obtain ⟨a, _, _, _, ha, _, _, _, hu'⟩ := hu.dotted
      have hempty := List.prefix_nil.mp (hnil ▸ hu.front)
      rw [hu'] at hempty
      simp at hempty
    unfold Command.withIp
    rw [RegexParser.next_some hne (by rw [hat.next]; exact hmt), ← hlongest.unique hu]
    rfl
  | inr h => exact absurd hu.front (h.2 u hu.dotted)

theorem Command.withIp_none (hat : parser.At arg) (hnone : ∀ u, ¬ LongestDotted arg u) (refusal : Bytes)
    (act : Bytes → World) : Command.withIp w m parser refusal act = Member.reply w m refusal := by
  cases Rx.ip_search arg with
  | inl h =>
    obtain ⟨mt, -, hlongest⟩ := h
    exact absurd hlongest (hnone _)
  | inr h =>
    unfold Command.withIp
    by_cases hne : parser.nextInput = []
    · have hnext : parser.next Rx.ip = (false, parser) := if_pos hne
      rw [hnext]
    · rw [RegexParser.next_none hne (by rw [hat.next]; exact h.1)]

/-- The command would change the list with an address. -/
def Command.ActsOnIp (cmd : Command) (w : World) (m : MemberPtr) (ip : Bytes) : Prop :=
  let rm := w.roomAt (w.memberAt m).room
  match cmd with
  | .banIp => Member.isModer w m ∧ Member.overLimit w m rm.bannedIps.size 100 = false ∧ ip ∉ rm.bannedIps
  | .unbanIp => Member.isModer w m ∧ ip ∈ rm.bannedIps
  | _ => False

def ipCommands : List Command := [.banIp, .unbanIp]

/-- The second list is the first one as the command is to change it: with the address, or
without it. -/
def Command.Performs (cmd : Command) (before after : IterSet Bytes) (ip : Bytes) : Prop :=
  match cmd with
  | .banIp => ∀ x, x ∈ after ↔ x ∈ before ∨ x = ip
  | .unbanIp => ∀ x, x ∈ after ↔ x ∈ before ∧ x ≠ ip
  | _ => False

theorem Command.process_ip_some (env : Env) {cmd : Command} (hcmd : cmd ∈ ipCommands) (hgranted : cmd.Granted w m)
    (hat : parser.At arg) (hu : LongestDotted arg u) :
    (cmd.ActsOnIp w m u →
      World.Toggles Room.bannedIps w (cmd.process env w m parser) (w.memberAt m).room u) ∧
    (¬ cmd.ActsOnIp w m u → (cmd.process env w m parser).roomAt = w.roomAt) := by
  cases cmd with
  | banIp =>
    have hmoder : Member.isModer w m := hgranted.rights.1 (by decide)
    change (_ → World.Toggles _ _ (CommandBanIp.process w m parser) _ _) ∧
      (_ → (CommandBanIp.process w m parser).roomAt = _)
    unfold CommandBanIp.process Command.ActsOnIp
    dsimp only
    rw [Command.withIp_eq hat hu]
    by_cases hlimit : Member.overLimit w m (w.roomAt (w.memberAt m).room).bannedIps.size 100
    · rw [if_pos hlimit]
      exact ⟨fun h => absurd (h.2.1.symm.trans hlimit) Bool.false_ne_true, fun _ => Member.reply_roomAt _ _ _⟩
    · rw [if_neg hlimit]
      exact Command.update_spec (by simp [hmoder, hlimit]) fun h => toggle_insert (of_decide_eq_true h)
  | unbanIp =>
    have hmoder : Member.isModer w m := hgranted.rights.1 (by decide)
    change (_ → World.Toggles _ _ (CommandUnbanIp.process w m parser) _ _) ∧
      (_ → (CommandUnbanIp.process w m parser).roomAt = _)
    unfold CommandUnbanIp.process Command.ActsOnIp
    rw [Command.withIp_eq hat hu]
    exact Command.update_spec (by simp [hmoder]) fun h => toggle_erase (of_decide_eq_true h)
  | _ => exact absurd hcmd (by simp [ipCommands])

theorem Command.process_ip_none (env : Env) {cmd : Command} (hcmd : cmd ∈ ipCommands) (hat : parser.At arg)
    (hnone : ∀ u, ¬ LongestDotted arg u) : (cmd.process env w m parser).roomAt = w.roomAt := by
  cases cmd with
  | banIp =>
    change (CommandBanIp.process w m parser).roomAt = _
    unfold CommandBanIp.process
    dsimp only
    rw [Command.withIp_none hat hnone]
    split
    · exact Member.reply_roomAt _ _ _
    · exact Member.reply_roomAt _ _ _
  | unbanIp =>
    change (CommandUnbanIp.process w m parser).roomAt = _
    unfold CommandUnbanIp.process
    rw [Command.withIp_none hat hnone]
    exact Member.reply_roomAt _ _ _
  | _ => exact absurd hcmd (by simp [ipCommands])

theorem Command.ActsOnIp.granted {cmd : Command} (h : cmd.ActsOnIp w m u) : cmd.Granted w m := by
  unfold Command.ActsOnIp at h
  split at h
  · simp [Command.Granted, cmdModer, h.1]
  · simp [Command.Granted, cmdModer, h.1]
  · exact h.elim

theorem Command.actsOnIp_calm (hcalm : Calm w w₁) (cmd : Command) (ip : Bytes) :
    cmd.ActsOnIp w₁ m ip ↔ cmd.ActsOnIp w m ip := by
  unfold Command.ActsOnIp
  simp only [hcalm.memberAt, hcalm.roomAt, hcalm.isModer m, Member.overLimit_calm hcalm]

theorem World.step_ip {cmd : Command} {s : Bytes} (hcmd : cmd ∈ ipCommands) (hw : WF env w)
    (h : w.Utters e m (cmd.line s)) (hflood : ¬ w.Floods e m) :
    (∀ u, LongestDotted (firstWord (s.dropWhile isSpace)) u → cmd.ActsOnIp w m u →
      World.Toggles Room.bannedIps w (w.step env e) (w.memberAt m).room u) ∧
    ((∀ u, LongestDotted (firstWord (s.dropWhile isSpace)) u → ¬ cmd.ActsOnIp w m u) →
      (w.step env e).roomAt = w.roomAt) := by
  obtain ⟨w₁, parser, hcalm, -, hat, hstep⟩ := World.step_command hw h hflood
  simp only [longestDotted_firstWord]
  rw [hstep]
  by_cases hgranted : cmd.Granted w m
  · rw [if_pos hgranted]
    have hgranted₁ := (Command.granted_calm hcalm cmd m).mpr hgranted
    constructor
    · intro u hu hacts x
      have htoggles := (Command.process_ip_some env hcmd hgranted₁ hat hu).1
        ((Command.actsOnIp_calm hcalm cmd u).mpr hacts)
      rw [hcalm.memberAt] at htoggles
      rw [htoggles x, hcalm.roomAt]
    · intro hidle
      rw [← hcalm.roomAt]
      by_cases hex : ∃ u, LongestDotted (s.dropWhile isSpace) u
      · obtain ⟨u, hu⟩ := hex
        exact (Command.process_ip_some env hcmd hgranted₁ hat hu).2
          fun hacts => hidle u hu ((Command.actsOnIp_calm hcalm cmd u).mp hacts)
      · exact Command.process_ip_none env hcmd hat fun u hu => hex ⟨u, hu⟩
  · rw [if_neg hgranted]
    refine ⟨fun u _ hacts => absurd hacts.granted hgranted, fun _ => ?_⟩
    rw [Member.reply_roomAt, hcalm.roomAt]

theorem Command.performs_iff {cmd : Command} {w' : World} (hacts : cmd.ActsOnIp w m u)
    (htoggles : World.Toggles Room.bannedIps w w' (w.memberAt m).room u) (t : Bytes) :
    ((∀ x, x ∈ (w'.roomAt (w.memberAt m).room).bannedIps ↔ x ∈ (w.roomAt (w.memberAt m).room).bannedIps) ∨
      cmd.Performs (w.roomAt (w.memberAt m).room).bannedIps (w'.roomAt (w.memberAt m).room).bannedIps t) ↔ u = t := by
  have hu := htoggles u
  simp only [ne_eq, not_true_eq_false, false_and, true_and, false_or] at hu
  unfold Command.ActsOnIp at hacts
  unfold Command.Performs
  split at hacts
  · have hnew := hacts.2.2
    constructor
    · intro h
      cases h with
      | inl hsame => exact absurd (hu.symm.trans (hsame u)) not_iff_self
      | inr hperforms => exact ((hperforms u).mp (hu.mpr hnew)).resolve_left hnew
    · intro he
      subst he
      refine .inr fun x => ?_
      rw [htoggles x]
      by_cases hx : x = u
      · simp [hx, hnew]
      · simp [hx]
  · have hold := hacts.2
    constructor
    · intro h
      cases h with
      | inl hsame => exact absurd (hu.symm.trans (hsame u)) not_iff_self
      | inr hperforms =>
        by_contra hne
        exact hu.mp ((hperforms u).mpr ⟨hold, hne⟩) hold
    · intro he
      subst he
      refine .inr fun x => ?_
      rw [htoggles x]
      simp [hold, and_comm]
  · exact hacts.elim

theorem World.ip_iff {cmd : Command} {s : Bytes} (hcmd : cmd ∈ ipCommands) (hw : WF env w)
    (h : w.Utters e m (cmd.line s)) :
    ((∀ x, x ∈ ((w.step env e).roomAt (w.memberAt m).room).bannedIps ↔
        x ∈ (w.roomAt (w.memberAt m).room).bannedIps) ∨
      cmd.Performs (w.roomAt (w.memberAt m).room).bannedIps ((w.step env e).roomAt (w.memberAt m).room).bannedIps
        (firstWord (s.dropWhile isSpace))) ↔
    ∀ u, LongestDotted (firstWord (s.dropWhile isSpace)) u →
      u = firstWord (s.dropWhile isSpace) ∨ w.Floods e m ∨ ¬ cmd.ActsOnIp w m u := by
  by_cases hflood : w.Floods e m
  · rw [(World.step_flood env h hflood).1]
    exact ⟨fun _ _ _ => .inr (.inl hflood), fun _ => .inl fun _ => Iff.rfl⟩
  obtain ⟨hacts, hidle⟩ := World.step_ip hcmd hw h hflood
  by_cases hex : ∃ u, LongestDotted (firstWord (s.dropWhile isSpace)) u ∧ cmd.ActsOnIp w m u
  · obtain ⟨u, hu, hact⟩ := hex
    rw [Command.performs_iff hact (hacts u hu hact)]
    constructor
    · intro he v hv
      exact .inl ((hv.unique hu).trans he)
    · intro hcond
      exact (hcond u hu).resolve_right fun hor => hor.elim hflood fun hno => hno hact
  · have hno : ∀ u, LongestDotted (firstWord (s.dropWhile isSpace)) u → ¬ cmd.ActsOnIp w m u :=
      fun u hu hact => hex ⟨u, hu, hact⟩
    rw [hidle hno]
    exact ⟨fun _ u hu => .inr (.inr (hno u hu)), fun _ => .inl fun _ => Iff.rfl⟩

end

/-- A ban or its end is for the address that was typed, or nothing happens, unless the command acts
on a dotted text that is only the front of the word. And a banned address keeps out everyone but
the moderators. -/
theorem run_addresses_iff (env : Env) (es : List Event) :
    let w := run env es
    (∀ (e : Event) (m : MemberPtr) (s : Bytes), ∀ cmd ∈ ipCommands, w.Utters e m (cmd.line s) →
      let r := (w.memberAt m).room
      let t := firstWord (s.dropWhile isSpace)
      let before := (w.roomAt r).bannedIps
      let after := ((w.step env e).roomAt r).bannedIps
      (((∀ x, x ∈ after ↔ x ∈ before) ∨ cmd.Performs before after t) ↔
        ∀ u, LongestDotted t u → u = t ∨ w.Floods e m ∨ ¬ cmd.ActsOnIp w m u)) ∧
    (∀ (sv : AuthServices) (k : ConnectionPtr) (c : ClientPtr) (msg : Json) (p : PacketJoin) (r : RoomPtr),
      findClientByConnection w k = some c → Packet.read env.unset msg = .ok (some (.join p)) →
      Server.getRoomByName w p.target = some r → r ∉ (w.clientAt c).rooms →
      (w.clientAt c).lastClientIP ∈ (w.roomAt r).bannedIps →
      ¬ ((w.clientAt c).isAdmin ∨ (w.clientAt c).uid ≠ 0 ∧
        ((w.clientAt c).uid = (w.roomAt r).ownerId ∨ (w.clientAt c).uid ∈ (w.roomAt r).moderators)) →
      let w' := Server.onMessage env sv w k (some msg)
      (¬ ∃ m ∈ (w'.roomAt r).members, (w'.memberAt m).client = c) ∧
        ((w.roomAt r).members.elems.length < 2 ^ 32 - 1 → Untraced k (some r) p .userBanned w w')) := by
  intro w
  have hw : WF env w := wf_run env es
  constructor
  · intro e m s cmd hcmd hutters
    exact World.ip_iff hcmd hw hutters
  · intro sv k c msg p r hc hread hroom hr hban hmoder
    have ha : ¬ Client.Admitted w c r := by
      intro hadmitted
      cases hadmitted with
      | inl h => exact hmoder h
      | inr h => exact h.1 hban
    have hrefused := Server.onMessage_refused hw hc hread hroom hr ha sv
    exact ⟨hrefused.2, hrefused.1⟩

def Sample.barred : List Event :=
  room ++ [sends 7 1 (line (Command.banIp.line (utf8 "10.0.0.1"))), opens 8 3 99 mem_c]

theorem Octet.of_bytes {a : Bytes} (hdigits : a.all isDigit) (h : 1 ≤ a.length ∧ a.length ≤ 3) : Octet a :=
  ⟨List.all_eq_true.mp hdigits, h⟩

theorem Sample.dotted_address : Dotted (firstWord ((utf8 "10.0.0.1").dropWhile isSpace)) := by
  have hten : Octet (utf8 "10") := .of_bytes (by decide +kernel) (by decide +kernel)
  have hzero : Octet (utf8 "0") := .of_bytes (by decide +kernel) (by decide +kernel)
  have hone : Octet (utf8 "1") := .of_bytes (by decide +kernel) (by decide +kernel)
  exact ⟨_, _, _, _, hten, hzero, hzero, hone, by decide +kernel⟩

theorem run_addresses_iff_guest :
    let w := run Sample.surroundings Sample.room
    let r := (w.memberAt ⟨0⟩).room
    let e := Sample.sends 7 1 (Sample.line (Command.banIp.line (utf8 "10.0.0.1")))
    let t := firstWord ((utf8 "10.0.0.1").dropWhile isSpace)
    let after := ((w.step Sample.surroundings e).roomAt r).bannedIps
    let w' := run Sample.surroundings Sample.barred
    let p : PacketJoin := { target := utf8 "#room", loadHistory := false }
    t ∈ after ∧ ((∀ x, x ∈ after ↔ x ∈ (w.roomAt r).bannedIps) ∨
        Command.banIp.Performs (w.roomAt r).bannedIps after t) ∧
      Untraced ⟨3⟩ (some ⟨0⟩) p .userBanned w'
        (Server.onMessage Sample.surroundings Sample.bob w' ⟨3⟩ (some (Sample.ofTarget 6))) := by
  intro w r e t after w' p
  have hutters : w.Utters e ⟨0⟩ (Command.banIp.line (utf8 "10.0.0.1")) :=
    Sample.utters (by decide +kernel)
  have hiff := (run_addresses_iff Sample.surroundings Sample.room).1 e ⟨0⟩ (utf8 "10.0.0.1") .banIp (by decide) hutters
  have hjoin := (run_addresses_iff Sample.surroundings Sample.barred).2 Sample.bob ⟨3⟩ ⟨2⟩ (Sample.ofTarget 6) p ⟨0⟩
    (by decide +kernel) (by rfl)
  have hstate : Server.getRoomByName w' p.target = some ⟨0⟩ ∧ ⟨0⟩ ∉ (w'.clientAt ⟨2⟩).rooms ∧
      (w'.clientAt ⟨2⟩).lastClientIP ∈ (w'.roomAt ⟨0⟩).bannedIps ∧
      (w'.clientAt ⟨2⟩).isAdmin = false ∧ (w'.clientAt ⟨2⟩).uid = 0 ∧
      (w'.roomAt ⟨0⟩).members.elems.length < 2 ^ 32 - 1 := by
    decide +kernel
  obtain ⟨hroom, hout, hban, hadmin, huid, hfull⟩ := hstate
  have hmoder : ¬ ((w'.clientAt ⟨2⟩).isAdmin ∨ (w'.clientAt ⟨2⟩).uid ≠ 0 ∧
      ((w'.clientAt ⟨2⟩).uid = (w'.roomAt ⟨0⟩).ownerId ∨ (w'.clientAt ⟨2⟩).uid ∈ (w'.roomAt ⟨0⟩).moderators)) := by
    simp [hadmin, huid]
  refine ⟨by decide +kernel, hiff.mpr fun u hu => .inl (Sample.dotted_address.whole hu), ?_⟩
  exact (hjoin hroom hout hban hmoder).2 hfull

/-- The owner types a text that is no address, and bans the address in front of it. -/
theorem addresses_fail_front :
    let w := run Sample.surroundings Sample.room
    let r := (w.memberAt ⟨0⟩).room
    let e := Sample.sends 7 1 (Sample.line (Command.banIp.line (utf8 "10.0.0.1234")))
    let after := ((w.step Sample.surroundings e).roomAt r).bannedIps
    w.Utters e ⟨0⟩ (Command.banIp.line (utf8 "10.0.0.1234")) ∧
      utf8 "10.0.0.123" ∉ (w.roomAt r).bannedIps ∧ utf8 "10.0.0.123" ∈ after ∧
      ¬ ((∀ x, x ∈ after ↔ x ∈ (w.roomAt r).bannedIps) ∨
        Command.banIp.Performs (w.roomAt r).bannedIps after (utf8 "10.0.0.1234")) := by
  intro w r e after
  have hutters : w.Utters e ⟨0⟩ (Command.banIp.line (utf8 "10.0.0.1234")) :=
    Sample.utters (by decide +kernel)
  have hbans : utf8 "10.0.0.123" ∉ (w.roomAt r).bannedIps ∧ utf8 "10.0.0.123" ∈ after := by decide +kernel
  obtain ⟨hbefore, hafter⟩ := hbans
  refine ⟨hutters, hbefore, hafter, ?_⟩
  intro h
  cases h with
  | inl hsame => exact hbefore ((hsame _).mp hafter)
  | inr hperforms =>
    cases (hperforms _).mp hafter with
    | inl hold => exact hbefore hold
    | inr he => exact absurd he (by decide)

end WsChat
