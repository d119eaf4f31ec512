import WsChat.Sessions
import WsChat.Rights

/-! What the timer does: each client is dealt with in one turn of one of its two loops, and the
turns of the others leave what it has. -/
namespace WsChat
open Lib Relation ClientsManager

def World.idle (w : World) (c : ClientPtr) : Int := w.now - (w.clientAt c).lastPacketTime

def Wire.isPing : Wire → Bool
  | .packet (.ping _) => true
  | _ => false

def World.pings (w : World) (k : ConnectionPtr) : Nat := w.sent.countP fun x => x.1 = k && x.2.isPing

/-- The client is to be removed. -/
def World.Outdated (w : World) (c : ClientPtr) : Prop := Server.orphanTimeout < w.idle c

/-- The client is to be an orphan. -/
def World.Lapsed (w : World) (c : ClientPtr) : Prop :=
  Server.connectTimeout < w.idle c ∧ w.idle c ≤ Server.orphanTimeout

/-- The client is to be asked for a sign of life. -/
def World.Silent (w : World) (c : ClientPtr) : Prop :=
  Server.pingTimeout < w.idle c ∧ w.idle c ≤ Server.connectTimeout

instance (w : World) (c : ClientPtr) : Decidable (w.Outdated c) := inferInstanceAs (Decidable (_ < _))

instance (w : World) (c : ClientPtr) : Decidable (w.Lapsed c) := inferInstanceAs (Decidable (_ ∧ _))

instance (w : World) (c : ClientPtr) : Decidable (w.Silent c) := inferInstanceAs (Decidable (_ ∧ _))

/-- A client and its members are as before, where they were. -/
structure Aside (c : ClientPtr) (w w' : World) : Prop where
  client : w'.clientAt c = w.clientAt c
  members : ∀ m, (w.memberAt m).client = c → w'.memberAt m = w.memberAt m
  seats : ∀ r m, (w.memberAt m).client = c → (m ∈ (w'.roomAt r).members ↔ m ∈ (w.roomAt r).members)

structure Orphaned (c : ClientPtr) (w w' : World) : Prop where
  client : w'.clientAt c = { w.clientAt c with connection := none }
  members : ∀ r, ∀ m ∈ (w.roomAt r).members, (w.memberAt m).client = c →
    w'.memberAt m = Member.turned w.now .orphan (w.memberAt m)
  seats : ∀ r m, (w.memberAt m).client = c → (m ∈ (w'.roomAt r).members ↔ m ∈ (w.roomAt r).members)

structure Removed (c : ClientPtr) (w w' : World) : Prop where
  client : w'.clientAt c = { w.clientAt c with rooms := ∅, connection := none }
  gone : ∀ r, ∀ m ∈ (w'.roomAt r).members, (w'.memberAt m).client ≠ c

/-- What a turn that is about a client leaves, the connections it tells to close and the pings it sends. -/
structure Turn (c : ClientPtr) (closed : List ConnectionPtr) (pinged : ConnectionPtr → Nat) (w w' : World) :
    Prop where
  now : w'.now = w.now
  who : ∀ m, (w'.memberAt m).client = (w.memberAt m).client
  others : ∀ d, d ≠ c → Aside d w w'
  closing : w'.closing = w.closing ++ closed
  pings : ∀ k, w'.pings k = w.pings k + pinged k

section
variable {env : Env} {w w' w'' : World} {c d : ClientPtr} {k : ConnectionPtr} {r : RoomPtr} {m : MemberPtr}

theorem Aside.refl (c : ClientPtr) (w : World) : Aside c w w := ⟨rfl, fun _ _ => rfl, fun _ _ _ => Iff.rfl⟩

theorem Aside.trans (hwho : ∀ m, (w'.memberAt m).client = (w.memberAt m).client) (h : Aside c w w')
    (h' : Aside c w' w'') : Aside c w w'' := by
  refine ⟨h'.client.trans h.client, ?_, ?_⟩
  · intro m hm
    rw [h'.members m ((hwho m).trans hm), h.members m hm]
  · intro r m hm
    rw [h'.seats r m ((hwho m).trans hm), h.seats r m hm]

theorem World.pings_emit (w : World) (out : List (ConnectionPtr × Wire)) (k : ConnectionPtr) :
    (w.emit out).pings k = w.pings k + out.countP fun x => x.1 = k && x.2.isPing :=
  List.countP_append

theorem countP_isPing {f : RoomPtr → List (ConnectionPtr × Wire)} (h : ∀ r, ∀ x ∈ f r, x.2.isPing = false)
    (l : List RoomPtr) (k : ConnectionPtr) : ((l.flatMap f).countP fun x => x.1 = k && x.2.isPing) = 0 := by
  refine List.countP_eq_zero.mpr ?_
  intro x hx
  obtain ⟨r, -, hx⟩ := List.mem_flatMap.mp hx
  simp [h r x hx]

theorem World.orphanMail_not_ping (w : World) (c : ClientPtr) (r : RoomPtr) :
    ∀ x ∈ w.orphanMail c r, x.2.isPing = false := by
  intro x hx
  unfold World.orphanMail at hx
  split at hx
  · split at hx
    · rw [(World.mem_roomMail.mp hx).2]
      rfl
    · cases hx
  · cases hx

theorem World.farewell_not_ping (w : World) (c : ClientPtr) (r : RoomPtr) :
    ∀ x ∈ w.farewell c r, x.2.isPing = false := by
  intro x hx
  unfold World.farewell at hx
  split at hx
  · rw [World.offlineMail_status x hx]
    rfl
  · cases hx

theorem Turn.refl (c : ClientPtr) (w : World) : Turn c [] (fun _ => 0) w w :=
  ⟨rfl, fun _ => rfl, fun d _ => Aside.refl d w, (List.append_nil _).symm, fun _ => rfl⟩

theorem Turn.ping (c : ClientPtr) (w : World) :
    Turn c [] (fun k => if (w.clientAt c).connection = some k then 1 else 0) w (Client.sendPacket w c .ping) := by
  rw [Client.sendPacket_eq]
  refine ⟨rfl, fun _ => rfl, fun d _ => ⟨rfl, fun _ _ => rfl, fun _ _ _ => Iff.rfl⟩,
    (List.append_nil _).symm, ?_⟩
  intro k
  rw [World.pings_emit, World.mail]
  cases hk : (w.clientAt c).connection with
  | none => simp
  | some k' =>
    by_cases he : k' = k
    · simp [he, Wire.isPing]
    · simp [he]

theorem Turn.orphan (h : WF env w) (hc : c ∈ w.manager.clients) (hk : (w.clientAt c).connection = some k) :
    Turn c [k] (fun _ => 0) w (makeOrphan env (Server.closeConnection w k) c) ∧
      Orphaned c w (makeOrphan env (Server.closeConnection w k) c) := by
  obtain ⟨manager, clamped, he⟩ := ClientsManager.makeOrphan_normal (w := Server.closeConnection w k)
    h.indexed h.linked hc hk
  rw [he]
  constructor
  · refine ⟨rfl, ?_, ?_, rfl, ?_⟩
    · intro m
      exact World.settle_client ((Server.closeConnection w k).unplug c) c _ .orphan m
    · intro d hd
      refine ⟨?_, ?_, fun _ _ _ => Iff.rfl⟩
      · simp [World.settle, World.unplug, Server.closeConnection, hd]
      · intro m hm
        refine if_neg ?_
        intro hfound
        obtain ⟨r, -, hfound⟩ := hfound
        exact hd (hm.symm.trans (Room.mem_of_findMemberByClient hfound).2)
    · intro k'
      rw [World.pings_emit, countP_isPing (World.orphanMail_not_ping _ c)]
      rfl
  · refine ⟨?_, ?_, fun _ _ _ => Iff.rfl⟩
    · simp [World.settle, World.unplug, Server.closeConnection]
    · intro r m hm hmc
      have hfind : Room.findMemberByClient w r c = some m := Room.findMemberByClient_eq h.linked hm hmc
      exact if_pos ⟨r, (h.linked.joinedIff c r).mpr ⟨m, hm, hmc⟩, hfind⟩

theorem Turn.kick (h : WF env w) (c : ClientPtr) :
    Turn c (w.clientAt c).connection.toList (fun _ => 0) w (Server.kickOutdated env w c) ∧
      Removed c w (Server.kickOutdated env w c) := by
  let marked : World := { w with closing := w.closing ++ (w.clientAt c).connection.toList }
  have hmarked : Server.kickOutdated env w c = remove env marked c := by
    unfold Server.kickOutdated
    cases hk : (w.clientAt c).connection with
    | none => simp [marked, hk]
    | some k => simp [marked, hk, Server.closeConnection]
  obtain ⟨manager, clamped, he⟩ : ∃ manager clamped,
      remove env marked c = { marked.withdraw c with manager := manager, clamped := clamped } :=
    ClientsManager.remove_normal h.linked
  rw [hmarked, he]
  have hin := World.mem_without (w := marked) h.linked c
  constructor
  · refine ⟨rfl, fun _ => rfl, ?_, rfl, ?_⟩
    · intro d hd
      refine ⟨?_, fun _ _ => rfl, ?_⟩
      · simp [World.withdraw, marked, hd]
      · intro r m hm
        have hne : (w.memberAt m).client ≠ c := fun hmc => hd (hm.symm.trans hmc)
        exact (hin r m).trans (and_iff_left hne)
    · intro k
      have hpings : World.pings { marked.withdraw c with manager := manager, clamped := clamped } k =
          (w.emit ((marked.clientAt c).rooms.elems.flatMap (marked.farewell c))).pings k := rfl
      rw [hpings, World.pings_emit, countP_isPing (World.farewell_not_ping marked c)]
  · refine ⟨?_, ?_⟩
    · simp [World.withdraw, marked]
    · intro r m hm
      exact ((hin r m).mp hm).2

theorem Aside.idle (hnow : w'.now = w.now) (h : Aside c w w') : w'.idle c = w.idle c := by
  rw [World.idle, World.idle, hnow, h.client]

theorem Aside.outdated (hnow : w'.now = w.now) (h : Aside c w w') : w'.Outdated c ↔ w.Outdated c := by
  rw [World.Outdated, h.idle hnow]
  rfl

theorem Aside.lapsed (hnow : w'.now = w.now) (h : Aside c w w') : w'.Lapsed c ↔ w.Lapsed c := by
  rw [World.Lapsed, h.idle hnow]
  rfl

theorem Aside.silent (hnow : w'.now = w.now) (h : Aside c w w') : w'.Silent c ↔ w.Silent c := by
  rw [World.Silent, h.idle hnow]
  rfl

theorem Orphaned.after_aside (hnow : w'.now = w.now) (hwho : ∀ m, (w'.memberAt m).client = (w.memberAt m).client)
    (h : Aside c w w') (h' : Orphaned c w' w'') : Orphaned c w w'' := by
  refine ⟨?_, ?_, ?_⟩
  · rw [h'.client, h.client]
  · intro r m hm hmc
    rw [h'.members r m ((h.seats r m hmc).mpr hm) ((hwho m).trans hmc), h.members m hmc, hnow]
  · intro r m hmc
    rw [h'.seats r m ((hwho m).trans hmc), h.seats r m hmc]

theorem Orphaned.then_aside (hwho : ∀ m, (w'.memberAt m).client = (w.memberAt m).client) (h : Orphaned c w w')
    (h' : Aside c w' w'') : Orphaned c w w'' := by
  refine ⟨?_, ?_, ?_⟩
  · rw [h'.client, h.client]
  · intro r m hm hmc
    rw [h'.members m ((hwho m).trans hmc), h.members r m hm hmc]
  · intro r m hmc
    rw [h'.seats r m ((hwho m).trans hmc), h.seats r m hmc]

theorem Removed.after_aside (h : Aside c w w') (h' : Removed c w' w'') : Removed c w w'' := by
  refine ⟨?_, h'.gone⟩
  rw [h'.client, h.client]

theorem Removed.then_aside (hwho : ∀ m, (w''.memberAt m).client = (w'.memberAt m).client) (h : Removed c w w')
    (h' : Aside c w' w'') : Removed c w w'' := by
  refine ⟨?_, ?_⟩
  · rw [h'.client, h.client]
  · intro r m hm hmc
    have hmc' : (w'.memberAt m).client = c := (hwho m).symm.trans hmc
    exact h.gone r m ((h'.seats r m hmc').mp hm) hmc'

structure Round (l : List ClientPtr) (closes : ClientPtr → List ConnectionPtr)
    (pinged : ClientPtr → ConnectionPtr → Nat) (w w' : World) : Prop where
  now : w'.now = w.now
  who : ∀ m, (w'.memberAt m).client = (w.memberAt m).client
  others : ∀ d, d ∉ l → Aside d w w'
  closing : w'.closing = w.closing ++ l.flatMap closes
  pings : ∀ k, w'.pings k = w.pings k + (l.map fun c => pinged c k).sum

section
variable {l : List ClientPtr} {closes closes' : ClientPtr → List ConnectionPtr}
  {pinged pinged' : ClientPtr → ConnectionPtr → Nat}

theorem Round.nil : Round [] closes pinged w w :=
  ⟨rfl, fun _ => rfl, fun d _ => Aside.refl d w, (List.append_nil _).symm, fun _ => rfl⟩

theorem Round.cons (h : Turn c (closes c) (pinged c) w w') (h' : Round l closes pinged w' w'') :
    Round (c :: l) closes pinged w w'' := by
  refine ⟨h'.now.trans h.now, fun m => (h'.who m).trans (h.who m), ?_, ?_, ?_⟩
  · intro d hd
    rw [List.mem_cons, not_or] at hd
    exact (h.others d hd.1).trans h.who (h'.others d hd.2)
  · rw [h'.closing, h.closing, List.append_assoc, List.flatMap_cons]
  · intro k
    rw [h'.pings, h.pings, Nat.add_assoc, List.map_cons, List.sum_cons]

theorem Round.congr (h : Round l closes pinged w w') (hcloses : ∀ c ∈ l, closes c = closes' c)
    (hpinged : ∀ c ∈ l, pinged c = pinged' c) : Round l closes' pinged' w w' := by
  refine ⟨h.now, h.who, h.others, ?_, ?_⟩
  · rw [h.closing, List.flatMap_congr hcloses]
  · intro k
    rw [h.pings, List.map_congr_left fun c hc => by rw [hpinged c hc]]

end

/-- What becomes of a client in the first loop. -/
def World.Served (w : World) (c : ClientPtr) (w' : World) : Prop :=
  if w.Lapsed c ∧ (w.clientAt c).connection.isSome then Orphaned c w w' else Aside c w w'

def World.tickCloses (w : World) (c : ClientPtr) : List ConnectionPtr :=
  if w.Lapsed c then (w.clientAt c).connection.toList else []

def World.tickPings (w : World) (c : ClientPtr) (k : ConnectionPtr) : Nat :=
  if w.Silent c ∧ (w.clientAt c).connection = some k then 1 else 0

theorem World.turn_idle (hlapsed : ¬ (w.Lapsed c ∧ (w.clientAt c).connection.isSome)) (hsilent : ¬ w.Silent c) :
    Turn c (w.tickCloses c) (w.tickPings c) w w ∧ w.Served c w := by
  have hcloses : w.tickCloses c = [] := by
    unfold World.tickCloses
    by_cases hl : w.Lapsed c
    · rw [if_pos hl]
      cases hk : (w.clientAt c).connection with
      | none => rfl
      | some k => exact absurd ⟨hl, by rw [hk]; rfl⟩ hlapsed
    · rw [if_neg hl]
  have hpings : w.tickPings c = fun _ => 0 := by
    funext k
    exact if_neg fun hs => hsilent hs.1
  rw [hcloses, hpings, World.Served, if_neg hlapsed]
  exact ⟨Turn.refl c w, Aside.refl c w⟩

theorem Server.tickClient_turn (h : WF env w) (hc : c ∈ w.manager.clients) (toKick : List ClientPtr) :
    Turn c (w.tickCloses c) (w.tickPings c) w (Server.tickClient env (w, toKick) c).1 ∧
      w.Served c (Server.tickClient env (w, toKick) c).1 ∧
      (Server.tickClient env (w, toKick) c).2 = toKick ++ [c].filter fun c => w.Outdated c := by
  have htick : Server.tickClient env (w, toKick) c =
      if w.Outdated c then (w, toKick ++ [c])
      else if Server.connectTimeout < w.idle c then
        (w.clientAt c).connection.elim (w, toKick) fun k => (makeOrphan env (Server.closeConnection w k) c, toKick)
      else if Server.pingTimeout < w.idle c then (Client.sendPacket w c .ping, toKick)
      else (w, toKick) := by
    unfold Server.tickClient World.Outdated World.idle
    dsimp only
    cases (w.clientAt c).connection with
    | none => rfl
    | some k => rfl
  rw [htick]
  by_cases hout : w.Outdated c
  · have hover : Server.orphanTimeout < w.idle c := hout
    have hidle := World.turn_idle (w := w) (c := c) (fun hl => absurd hl.1.2 (not_le.mpr hover))
      fun hs => absurd (hs.2.trans (by decide)) (not_le.mpr hover)
    rw [if_pos hout, List.filter_cons_of_pos (by simpa using hout)]
    exact ⟨hidle.1, hidle.2, rfl⟩
  have hwithin : w.idle c ≤ Server.orphanTimeout := not_lt.mp hout
  rw [if_neg hout, List.filter_cons_of_neg (by simpa using hout), List.filter_nil, List.append_nil]
  by_cases hlate : Server.connectTimeout < w.idle c
  · have hnot : ¬ w.Silent c := fun hs => absurd hs.2 (not_le.mpr hlate)
    rw [if_pos hlate]
    cases hk : (w.clientAt c).connection with
    | none =>
      have hidle := World.turn_idle (w := w) (c := c) (by simp [hk]) hnot
      exact ⟨hidle.1, hidle.2, rfl⟩
    | some k =>
      obtain ⟨hturn, horphaned⟩ := Turn.orphan h hc hk
      have hlapsed : w.Lapsed c := ⟨hlate, hwithin⟩
      have hcloses : w.tickCloses c = [k] := by simp [World.tickCloses, hlapsed, hk]
      have hpings : w.tickPings c = fun _ => 0 := by
        funext k
        exact if_neg fun hs => hnot hs.1
      rw [hcloses, hpings, World.Served, if_pos ⟨hlapsed, by rw [hk]; rfl⟩]
      exact ⟨hturn, horphaned, rfl⟩
  rw [if_neg hlate]
  have hnot : ¬ w.Lapsed c := fun hl => hlate hl.1
  by_cases hping : Server.pingTimeout < w.idle c
  · have hsilent : w.Silent c := ⟨hping, not_lt.mp hlate⟩
    have hcloses : w.tickCloses c = [] := if_neg hnot
    have hpings : w.tickPings c = fun k => if (w.clientAt c).connection = some k then 1 else 0 := by
      funext k
      simp [World.tickPings, hsilent]
    rw [if_pos hping, hcloses, hpings, World.Served, if_neg fun hl => hnot hl.1, Client.sendPacket_eq]
    have hturn := Turn.ping c w
    rw [Client.sendPacket_eq] at hturn
    exact ⟨hturn, ⟨rfl, fun _ _ => rfl, fun _ _ _ => Iff.rfl⟩, rfl⟩
  · have hidle := World.turn_idle (w := w) (c := c) (fun hl => hnot hl.1) fun hs => hping hs.1
    rw [if_neg hping]
    exact ⟨hidle.1, hidle.2, rfl⟩

theorem World.Served.congr (hnow : w'.now = w.now) (hwho : ∀ m, (w'.memberAt m).client = (w.memberAt m).client)
    (h : Aside c w w') (h' : w'.Served c w'') : w.Served c w'' := by
  have hsame : (w'.Lapsed c ∧ (w'.clientAt c).connection.isSome) ↔ (w.Lapsed c ∧ (w.clientAt c).connection.isSome) := by
    rw [h.lapsed hnow, h.client]
  unfold World.Served at h' ⊢
  split
  · rename_i hlapsed
    rw [if_pos (hsame.mpr hlapsed)] at h'
    exact h'.after_aside hnow hwho h
  · rename_i hlapsed
    rw [if_neg fun hl => hlapsed (hsame.mp hl)] at h'
    exact h.trans hwho h'

theorem World.Served.then_aside (hwho : ∀ m, (w'.memberAt m).client = (w.memberAt m).client)
    (h : w.Served c w') (h' : Aside c w' w'') : w.Served c w'' := by
  unfold World.Served at h ⊢
  split
  · rename_i hlapsed
    rw [if_pos hlapsed] at h
    exact h.then_aside hwho h'
  · rename_i hlapsed
    rw [if_neg hlapsed] at h
    exact h.trans hwho h'

/-- The first loop serves each client of its list and picks the outdated ones. -/
theorem Server.tickClients_round {l : List ClientPtr} (toKick : List ClientPtr) (h : WF env w)
    (hl : ∀ c ∈ l, c ∈ w.manager.clients) (hnd : l.Nodup) :
    let acc := l.foldl (Server.tickClient env) (w, toKick)
    WF env acc.1 ∧ acc.1.manager.clients = w.manager.clients ∧ Round l w.tickCloses w.tickPings w acc.1 ∧
      (∀ c ∈ l, w.Served c acc.1) ∧ acc.2 = toKick ++ l.filter fun c => w.Outdated c := by
  induction l generalizing w toKick with
  | nil => exact ⟨h, rfl, Round.nil, fun c hc => absurd hc List.not_mem_nil, (List.append_nil _).symm⟩
  | cons c l ih =>
    obtain ⟨hcl, hnd⟩ := List.nodup_cons.mp hnd
    have hc := hl c List.mem_cons_self
    obtain ⟨hroutines, hclients, -⟩ := Server.tickClient_spec h hc toKick
    obtain ⟨hturn, hserved, hkick⟩ := Server.tickClient_turn h hc toKick
    rw [List.foldl_cons]
    generalize Server.tickClient env (w, toKick) c = acc at hroutines hclients hturn hserved hkick ⊢
    obtain ⟨w₁, toKick₁⟩ := acc
    dsimp only at hroutines hclients hturn hserved hkick
    have hothers : ∀ d ∈ l, Aside d w w₁ := fun d hd => hturn.others d fun he => hcl (he ▸ hd)
    obtain ⟨hwf, hclients', hround, hserved', hkick'⟩ := ih toKick₁ (h.routines hroutines)
      (fun d hd => hclients.symm ▸ hl d (List.mem_cons_of_mem c hd)) hnd
    have hround' : Round l w.tickCloses w.tickPings w₁ (l.foldl (Server.tickClient env) (w₁, toKick₁)).1 := by
      refine hround.congr ?_ ?_
      · intro d hd
        rw [World.tickCloses, (hothers d hd).client]
        exact if_congr ((hothers d hd).lapsed hturn.now) rfl rfl
      · intro d hd
        funext k
        rw [World.tickPings, (hothers d hd).client]
        exact if_congr (and_congr_left' ((hothers d hd).silent hturn.now)) rfl rfl
    refine ⟨hwf, hclients'.trans hclients, Round.cons hturn hround', ?_, ?_⟩
    · intro d hd
      cases List.mem_cons.mp hd with
      | inl he =>
        subst he
        exact hserved.then_aside hturn.who (hround.others d hcl)
      | inr hd => exact (hserved' d hd).congr hturn.now hturn.who (hothers d hd)
    · have houtdated : l.filter (fun d => w₁.Outdated d) = l.filter fun d => w.Outdated d :=
        List.filter_congr fun d hd => decide_eq_decide.mpr ((hothers d hd).outdated hturn.now)
      rw [hkick', hkick, houtdated, List.append_assoc, ← List.filter_append, List.singleton_append]

theorem Server.kickAll_round {l : List ClientPtr} (h : WF env w) (hl : ∀ c ∈ l, c ∈ w.manager.clients)
    (hnd : l.Nodup) :
    let w' := l.foldl (Server.kickOutdated env) w
    WF env w' ∧ w'.manager.clients = w.manager.clients.filter (fun c => c ∉ l) ∧
      Round l (fun c => (w.clientAt c).connection.toList) (fun _ _ => 0) w w' ∧ ∀ c ∈ l, Removed c w w' := by
  induction l generalizing w with
  | nil => exact ⟨h, by simp, Round.nil, fun c hc => absurd hc List.not_mem_nil⟩
  | cons c l ih =>
    obtain ⟨hcl, hnd⟩ := List.nodup_cons.mp hnd
    obtain ⟨hroutines, hclients⟩ := Server.kickOutdated_routines h (hl c List.mem_cons_self)
    obtain ⟨hturn, hremoved⟩ := Turn.kick h c
    rw [List.foldl_cons]
    generalize Server.kickOutdated env w c = w₁ at hroutines hclients hturn hremoved ⊢
    have hothers : ∀ d ∈ l, Aside d w w₁ := fun d hd => hturn.others d fun he => hcl (he ▸ hd)
    have hnodup : w.manager.clients.Nodup := h.indexed.nodup
    have hin : ∀ d ∈ l, d ∈ w₁.manager.clients := by
      intro d hd
      rw [hclients, hnodup.mem_erase_iff]
      exact ⟨fun he => hcl (he ▸ hd), hl d (List.mem_cons_of_mem c hd)⟩
    obtain ⟨hwf, hclients', hround, hremoved'⟩ := ih (h.routines hroutines) hin hnd
    have hround' : Round l (fun c => (w.clientAt c).connection.toList) (fun _ _ => 0) w₁
        (l.foldl (Server.kickOutdated env) w₁) :=
      hround.congr (fun d hd => by rw [(hothers d hd).client]) fun _ _ => rfl
    refine ⟨hwf, ?_, Round.cons hturn hround', ?_⟩
    · rw [hclients', hclients, hnodup.erase_eq_filter, List.filter_filter]
      refine List.filter_congr fun d _ => ?_
      by_cases hd : d = c
      · simp [hd]
      · simp [hd]
    · intro d hd
      cases List.mem_cons.mp hd with
      | inl he =>
        subst he
        exact hremoved.then_aside hround.who (hround.others d hcl)
      | inr hd => exact (hremoved' d hd).after_aside (hothers d hd)

end

structure Registered (w : World) (c : ClientPtr) : Prop where
  listed : c ∈ w.manager.clients
  byToken : findClientByToken w (w.clientAt c).token = some c
  byConnection : ∀ k, findClientByConnection w k = some c ↔ (w.clientAt c).connection = some k

structure Forgotten (w : World) (c : ClientPtr) : Prop where
  connection : (w.clientAt c).connection = none
  byToken : ∀ token, findClientByToken w token ≠ some c
  byConnection : ∀ k, findClientByConnection w k ≠ some c
  rooms : (w.clientAt c).rooms = ∅
  members : ∀ r, ∀ m ∈ (w.roomAt r).members, (w.memberAt m).client ≠ c

section
variable {env : Env} {w : World} {c : ClientPtr} {k : ConnectionPtr}

theorem WF.registered (h : WF env w) (hc : c ∈ w.manager.clients) : Registered w c := by
  refine ⟨hc, (h.indexed.tokenIff _ c).mpr ⟨hc, rfl⟩, ?_⟩
  intro k
  exact (h.indexed.connIff k c).trans (and_iff_right hc)

theorem WF.forgotten {w' : World} (h : WF env w') (hc : c ∉ w'.manager.clients) (hremoved : Removed c w w') :
    Forgotten w' c := by
  refine ⟨?_, ?_, ?_, ?_, hremoved.gone⟩
  · rw [hremoved.client]
  · exact fun token htoken => hc ((h.indexed.tokenIff token c).mp htoken).1
  · exact fun k hk => hc ((h.indexed.connIff k c).mp hk).1
  · rw [hremoved.client]

theorem World.mem_closed : k ∈ w.manager.clients.flatMap w.tickCloses ++
      (w.manager.clients.filter fun c => w.Outdated c).flatMap (fun c => (w.clientAt c).connection.toList) ↔
    ∃ c ∈ w.manager.clients, (w.clientAt c).connection = some k ∧ Server.connectTimeout < w.idle c := by
  simp only [List.mem_append, List.mem_flatMap, List.mem_filter, decide_eq_true_eq, Option.mem_toList]
  constructor
  · intro h
    cases h with
    | inl h =>
      obtain ⟨c, hc, hk⟩ := h
      unfold World.tickCloses at hk
      split at hk
      · rename_i hlapsed
        exact ⟨c, hc, Option.mem_toList.mp hk, hlapsed.1⟩
      · cases hk
    | inr h =>
      obtain ⟨c, ⟨hc, hout⟩, hk⟩ := h
      have hover : Server.orphanTimeout < w.idle c := hout
      exact ⟨c, hc, hk, lt_trans (by decide) hover⟩
  · intro h
    obtain ⟨c, hc, hk, hlate⟩ := h
    by_cases hout : w.Outdated c
    · exact .inr ⟨c, ⟨hc, hout⟩, hk⟩
    · have hlapsed : w.Lapsed c := ⟨hlate, not_lt.mp hout⟩
      refine .inl ⟨c, hc, ?_⟩
      rw [World.tickCloses, if_pos hlapsed]
      exact Option.mem_toList.mpr hk

theorem WF.sum_tickPings (h : WF env w) (hk : findClientByConnection w k = some c) :
    (w.manager.clients.map fun d => w.tickPings d k).sum = if w.Silent c then 1 else 0 := by
  obtain ⟨hc, hck⟩ := findClientByConnection_spec h hk
  have hrest : ((w.manager.clients.erase c).map fun d => w.tickPings d k).sum = 0 := by
    refine List.sum_eq_zero ?_
    intro n hn
    obtain ⟨d, hd, rfl⟩ := List.mem_map.mp hn
    have hnodup : w.manager.clients.Nodup := h.indexed.nodup
    obtain ⟨hne, hd⟩ := hnodup.mem_erase_iff.mp hd
    refine if_neg ?_
    intro hping
    exact hne (h.indexed.conn_inj hd hc hping.2 hck)
  rw [← List.sum_map_erase _ hc, hrest, World.tickPings]
  simp [hck]

theorem WF.sum_tickPings_none (h : WF env w) (hk : findClientByConnection w k = none) :
    (w.manager.clients.map fun d => w.tickPings d k).sum = 0 := by
  refine List.sum_eq_zero ?_
  intro n hn
  obtain ⟨d, hd, rfl⟩ := List.mem_map.mp hn
  refine if_neg ?_
  intro hping
  have hfound : findClientByConnection w k = some d := (h.indexed.connIff k d).mpr ⟨hd, hping.2⟩
  rw [hk] at hfound
  cases hfound

theorem Server.onTimer_tick (h : WF env w) :
    let w' := Server.onTimer env w
    WF env w' ∧ w'.manager.clients = w.manager.clients.filter (fun c => ¬ w.Outdated c) ∧
      (∀ c ∈ w.manager.clients, if w.Outdated c then Removed c w w' else w.Served c w') ∧
      w'.closing = w.closing ++ (w.manager.clients.flatMap w.tickCloses ++
        (w.manager.clients.filter fun c => w.Outdated c).flatMap fun c => (w.clientAt c).connection.toList) ∧
      ∀ k, w'.pings k = w.pings k + (w.manager.clients.map fun d => w.tickPings d k).sum := by
  intro w'
  have hnodup : w.manager.clients.Nodup := h.indexed.nodup
  obtain ⟨h₁, hclients₁, hround₁, hserved, hkick⟩ := Server.tickClients_round [] h (fun c hc => hc) hnodup
  have hw' : w' = (w.manager.clients.foldl (Server.tickClient env) (w, [])).2.foldl (Server.kickOutdated env)
      (w.manager.clients.foldl (Server.tickClient env) (w, [])).1 := rfl
  rw [List.nil_append] at hkick
  rw [hkick] at hw'
  generalize (w.manager.clients.foldl (Server.tickClient env) (w, [])).1 = w₁ at h₁ hclients₁ hround₁ hserved hw'
  have hin : ∀ c ∈ w.manager.clients.filter (fun c => w.Outdated c), c ∈ w₁.manager.clients := by
    intro c hc
    rw [hclients₁]
    exact (List.mem_filter.mp hc).1
  obtain ⟨h₂, hclients₂, hround₂, hremoved⟩ := Server.kickAll_round h₁ hin (hnodup.filter _)
  rw [← hw'] at h₂ hclients₂ hround₂ hremoved
  have hout : ∀ c ∈ w.manager.clients, w.Outdated c → Aside c w w₁ := by
    intro c hc hout
    have hover : Server.orphanTimeout < w.idle c := hout
    have hs := hserved c hc
    rw [World.Served, if_neg fun hl => absurd hl.1.2 (not_le.mpr hover)] at hs
    exact hs
  refine ⟨h₂, ?_, ?_, ?_, ?_⟩
  · rw [hclients₂, hclients₁]
    refine List.filter_congr ?_
    intro c hc
    simp [List.mem_filter, hc]
  · intro c hc
    split
    · rename_i houtdated
      exact (hremoved c (List.mem_filter.mpr ⟨hc, by simpa using houtdated⟩)).after_aside (hout c hc houtdated)
    · rename_i houtdated
      exact (hserved c hc).then_aside hround₁.who
        (hround₂.others c fun hin => houtdated (by simpa using (List.mem_filter.mp hin).2))
  · rw [hround₂.closing, hround₁.closing, List.append_assoc]
    have hsame : ∀ c ∈ w.manager.clients.filter (fun c => w.Outdated c),
        (w₁.clientAt c).connection.toList = (w.clientAt c).connection.toList := by
      intro c hc
      obtain ⟨hc, houtdated⟩ := List.mem_filter.mp hc
      rw [(hout c hc (by simpa using houtdated)).client]
    rw [List.flatMap_congr hsame]
  · intro k
    rw [hround₂.pings, hround₁.pings]
    simp

end

/-- The timer removes the clients that are outdated, makes orphans of those that are late, asks
the silent ones for a sign of life, and leaves the others alone. -/
theorem run_tick_exact (env : Env) (es : List Event) (now : Int) :
    let w : World := { run env es with now := now }
    let w' := Server.onTimer env w
    w'.manager.clients = w.manager.clients.filter (fun c => ¬ w.Outdated c) ∧
    (∀ c ∈ w.manager.clients,
      (w.Outdated c → Forgotten w' c) ∧
      (w.Lapsed c → Registered w' c ∧ (w'.clientAt c).connection = none ∧
        (((w.clientAt c).connection.isSome ∧ Orphaned c w w') ∨ ((w.clientAt c).connection = none ∧ Aside c w w'))) ∧
      (w.idle c ≤ Server.connectTimeout → Registered w' c ∧ Aside c w w')) ∧
    (∃ closed, w'.closing = w.closing ++ closed ∧ ∀ k, k ∈ closed ↔
      ∃ c ∈ w.manager.clients, (w.clientAt c).connection = some k ∧ Server.connectTimeout < w.idle c) ∧
    ∀ k, (∀ c, findClientByConnection w k = some c → w'.pings k = w.pings k + if w.Silent c then 1 else 0) ∧
      (findClientByConnection w k = none → w'.pings k = w.pings k) := by
  intro w w'
  have h : WF env w := (wf_run env es).chore (.clock now)
  obtain ⟨h', hclients, hserved, hclosing, hpings⟩ := Server.onTimer_tick h
  have hkept : ∀ c ∈ w.manager.clients, ¬ w.Outdated c → Registered w' c := by
    intro c hc hout
    refine h'.registered ?_
    rw [hclients]
    exact List.mem_filter.mpr ⟨hc, by simpa using hout⟩
  refine ⟨hclients, ?_, ⟨_, hclosing, fun k => World.mem_closed⟩, ?_⟩
  · intro c hc
    have hs := hserved c hc
    refine ⟨?_, ?_, ?_⟩
    · intro hout
      rw [if_pos hout] at hs
      refine h'.forgotten ?_ hs
      rw [hclients]
      simp [List.mem_filter, hout]
    · intro hlapsed
      have hout : ¬ w.Outdated c := not_lt.mpr hlapsed.2
      rw [if_neg hout, World.Served] at hs
      cases hk : (w.clientAt c).connection with
      | none =>
        rw [if_neg (by simp [hk])] at hs
        exact ⟨hkept c hc hout, by rw [hs.client, hk], .inr ⟨rfl, hs⟩⟩
      | some k =>
        rw [if_pos ⟨hlapsed, by rw [hk]; rfl⟩] at hs
        exact ⟨hkept c hc hout, by rw [hs.client], .inl ⟨rfl, hs⟩⟩
    · intro hfresh
      have hout : ¬ w.Outdated c := not_lt.mpr (hfresh.trans (by decide))
      rw [if_neg hout, World.Served, if_neg fun hl => absurd hl.1.1 (not_lt.mpr hfresh)] at hs
      exact ⟨hkept c hc hout, hs⟩
  · intro k
    constructor
    · intro c hk
      rw [hpings, h.sum_tickPings hk]
    · intro hk
      rw [hpings, h.sum_tickPings_none hk, Nat.add_zero]

theorem run_tick_exact_late :
    let w : World := { run Sample.surroundings Sample.room with now := 155 }
    let w' := Server.onTimer Sample.surroundings w
    Registered w' ⟨0⟩ ∧ Orphaned ⟨0⟩ w w' ∧ Registered w' ⟨1⟩ ∧ Aside ⟨1⟩ w w' ∧ w'.pings ⟨2⟩ = w.pings ⟨2⟩ + 1 := by
  intro w w'
  have hstate : ⟨0⟩ ∈ w.manager.clients ∧ ⟨1⟩ ∈ w.manager.clients ∧ w.Lapsed ⟨0⟩ ∧ w.Silent ⟨1⟩ ∧
      (w.clientAt ⟨0⟩).connection.isSome ∧ findClientByConnection w ⟨2⟩ = some ⟨1⟩ := by
    decide +kernel
  obtain ⟨hbob, hguest, hlapsed, hsilent, hconnected, hk⟩ := hstate
  obtain ⟨-, hclients, -, hpings⟩ := run_tick_exact Sample.surroundings Sample.room 155
  obtain ⟨hregistered, -, hcase⟩ := (hclients ⟨0⟩ hbob).2.1 hlapsed
  obtain ⟨hkept, haside⟩ := (hclients ⟨1⟩ hguest).2.2 hsilent.2
  have hping := (hpings ⟨2⟩).1 ⟨1⟩ hk
  rw [if_pos hsilent] at hping
  refine ⟨hregistered, ?_, hkept, haside, hping⟩
  cases hcase with
  | inl h => exact h.2
  | inr h =>
    have hnone : (w.clientAt ⟨0⟩).connection = none := h.1
    rw [hnone] at hconnected
    cases hconnected

end WsChat
