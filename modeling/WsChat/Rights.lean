import WsChat.Members

/-! What one packet may do to a room and to the other members, and by what right. -/
namespace WsChat
open Lib Relation ClientsManager

/-- The lists that decide who may enter a room. -/
def Room.bans (rm : Room) : IterSet Bytes × IterSet Bytes × IterSet UInt32 :=
  (rm.bannedNicks, rm.bannedIps, rm.bannedUids)

structure Room.SameRules (rm' rm : Room) : Prop where
  owner : rm'.ownerId = rm.ownerId
  moderators : rm'.moderators = rm.moderators
  bans : rm'.bans = rm.bans

theorem Room.SameRules.rfl {rm : Room} : rm.SameRules rm := ⟨Eq.refl _, Eq.refl _, Eq.refl _⟩

theorem Thins.rules {w w' : World} (h : Thins w w') (r : RoomPtr) :
    (w'.roomAt r).SameRules (w.roomAt r) := by
  obtain ⟨-, ho, hm, hn, hi, hu⟩ := h.room r
  exact ⟨ho, hm, by simp only [Room.bans, hn, hi, hu]⟩

/-- From one world to another a room keeps what the client had no right to change in the world
`w₀`, and its other members stay unless the client may remove them or the room. -/
structure Lawful (c : ClientPtr) (w₀ : World) (r : RoomPtr) (w w' : World) : Prop where
  built : r ∈ w.membership.built → r ∈ w'.membership.built
  owner : (w'.roomAt r).ownerId = (w.roomAt r).ownerId
  moderators : (w'.roomAt r).moderators = (w.roomAt r).moderators ∨ Client.Owns w₀ c r
  bans : (w'.roomAt r).bans = (w.roomAt r).bans ∨ Client.Moderates w₀ c r
  rooms : (r ∈ w'.rooms ↔ r ∈ w.rooms) ∨ r ∉ w'.rooms ∧ Client.MayRaze w₀ c r
  members : (∀ m ∈ (w.roomAt r).members, (w.memberAt m).client ≠ c →
      m ∈ (w'.roomAt r).members ∧ (w'.memberAt m).client = (w.memberAt m).client) ∨
    r ∉ w'.rooms ∧ Client.MayRaze w₀ c r ∨ Client.Moderates w₀ c r

variable {env : Env} {c : ClientPtr} {w₀ w w' w'' : World} {r : RoomPtr}

theorem Lawful.refl (w : World) : Lawful c w₀ r w w :=
  ⟨id, rfl, .inl rfl, .inl rfl, .inl Iff.rfl, .inl fun _ hm _ => ⟨hm, rfl⟩⟩

theorem Lawful.trans (h : Lawful c w₀ r w w') (h' : Lawful c w₀ r w' w'') : Lawful c w₀ r w w'' where
  built := fun hb => h'.built (h.built hb)
  owner := h'.owner.trans h.owner
  moderators := by
    rcases h'.moderators with he' | hg
    · exact h.moderators.imp_left he'.trans
    · exact .inr hg
  bans := by
    rcases h'.bans with he' | hg
    · exact h.bans.imp_left he'.trans
    · exact .inr hg
  rooms := by
    rcases h'.rooms with he' | hg
    · exact h.rooms.imp he'.trans fun hg => ⟨fun hr => hg.1 (he'.mp hr), hg.2⟩
    · exact .inr hg
  members := by
    rcases h'.members with hk' | hg
    · rcases h.members with hk | ⟨hr, hg⟩ | hg
      · refine .inl fun m hm hne => ?_
        obtain ⟨hm₁, he⟩ := hk m hm hne
        obtain ⟨hm₂, he'⟩ := hk' m hm₁ (he ▸ hne)
        exact ⟨hm₂, he'.trans he⟩
      · rcases h'.rooms with he' | hg'
        · exact .inr (.inl ⟨fun hr' => hr (he'.mp hr'), hg⟩)
        · exact .inr (.inl hg')
      · exact .inr (.inr hg)
    · exact .inr hg

theorem Lawful.of_evolves {g : Registry} {ms : Membership ClientPtr RoomPtr MemberPtr Bytes}
    (he : Evolves w g ms w') (hrules : (w'.roomAt r).SameRules (w.roomAt r))
    (hb : r ∈ w.membership.built → r ∈ ms.built)
    (hr : (r ∈ ms.rooms ↔ r ∈ w.rooms) ∨ r ∉ ms.rooms ∧ Client.MayRaze w₀ c r)
    (hm : (∀ m ∈ (w.roomAt r).members, (w.memberAt m).client ≠ c →
        m ∈ ms.members r ∧ ms.who m = (w.memberAt m).client) ∨
      r ∉ ms.rooms ∧ Client.MayRaze w₀ c r ∨ Client.Moderates w₀ c r) : Lawful c w₀ r w w' := by
  rw [← he.membership] at hb hr hm
  exact ⟨hb, hrules.owner, .inl hrules.moderators, .inl hrules.bans, hr, hm⟩

theorem Lawful.of_frame (hf : Frame w w') (hrules : (w'.roomAt r).SameRules (w.roomAt r)) :
    Lawful c w₀ r w w' :=
  .of_evolves hf hrules id (.inl Iff.rfl) (.inl fun _ hm _ => ⟨hm, rfl⟩)

theorem Lawful.of_expel {s : RoomPtr} {m : MemberPtr} {g : Registry}
    (he : Evolves w g (w.membership.expel s m) w') (hrules : (w'.roomAt r).SameRules (w.roomAt r))
    (hm : r = s → (w.memberAt m).client = c ∨ Client.Moderates w₀ c r) : Lawful c w₀ r w w' := by
  refine .of_evolves he hrules id (.inl Iff.rfl) ?_
  by_cases hs : r = s
  · subst hs
    refine (hm rfl).imp (fun hc n hn hne => ⟨?_, rfl⟩) .inr
    have hnm : n ≠ m := by
      rintro rfl
      exact hne hc
    simpa [Membership.expel, World.membership] using And.intro hn hnm
  · refine .inl fun n hn _ => ⟨?_, rfl⟩
    simpa [Membership.expel, World.membership, hs] using hn

theorem Lawful.quiet {S : Bytes → Prop} (h : Quiet env c w₀ S w w') : Lawful c w₀ r w w' := by
  have hf := h.frame
  cases h with
  | tell | list | touch | identify | whisper | presence | typing | dress | rename =>
    exact .of_frame hf .rfl
  | restyle =>
    rw [Member.announce_eq] at hf ⊢
    exact .of_frame hf .rfl
  | say s =>
    rw [Room.say_eq] at hf ⊢
    refine .of_frame hf ?_
    by_cases hs : r = s
    · subst hs
      simpa using ⟨rfl, rfl, rfl⟩
    · simpa [hs] using .rfl
  | ban s nicks ips uids _ hguard =>
    by_cases hs : r = s
    · subst hs
      exact ⟨fun hb => by rw [hf.membership]; exact hb, by simp, .inl (by simp), .inr hguard, .inl Iff.rfl,
        .inl fun m hm _ => ⟨by simpa using hm, rfl⟩⟩
    · exact .of_frame hf (by simpa [hs] using .rfl)
  | appoint s moderators _ hguard =>
    by_cases hs : r = s
    · subst hs
      exact ⟨fun hb => by rw [hf.membership]; exact hb, by simp, .inr hguard, .inl (by simp [Room.bans]),
        .inl Iff.rfl, .inl fun m hm _ => ⟨by simpa using hm, rfl⟩⟩
    · exact .of_frame hf (by simpa [hs] using .rfl)

theorem Lawful.kick {s : RoomPtr} {m : MemberPtr} (hguard : Client.Moderates w₀ c s) :
    Lawful c w₀ r w (Room.kickMember env w s m) :=
  .of_expel Room.kickMember_evolves ((Thins.kickMember w s m).rules r) fun hs => .inr (hs ▸ hguard)

/-- Every move of a packet is lawful for every room that exists. -/
theorem Lawful.move {S : Bytes → Prop} (hw : WF env w) (hr : r ∈ w.membership.built)
    (h : Move env c w₀ S w w') :
    Lawful c w₀ r w w' := by
  have hold : ∀ s, ∀ m ∈ (w.roomAt s).members, m ≠ ⟨w.nextMember⟩ :=
    fun s m hm => hw.linked.ne_of_mem w.not_issued m hm
  cases h with
  | quiet hq => exact .quiet hq
  | hang => exact ⟨id, rfl, .inl rfl, .inl rfl, .inl Iff.rfl, .inl fun _ hm _ => ⟨hm, rfl⟩⟩
  | issue s mid =>
    refine .of_evolves (issue_evolves w c s mid) ?_ id (.inl Iff.rfl) (.inl fun m hm _ => ⟨hm, ?_⟩)
    · by_cases hs : r = s
      · subst hs
        simpa [World.issue] using ⟨rfl, rfl, rfl⟩
      · simpa [World.issue, hs] using .rfl
    · exact Function.update_of_ne (hold r m hm) _ _
  | enter s mid sequenceId =>
    refine .of_evolves ((enter_evolves w c s mid).then_frame (.emit _ _)) ?_ id (.inl Iff.rfl)
      (.inl fun m hm _ => ⟨?_, ?_⟩)
    · by_cases hs : r = s
      · subst hs
        simpa [World.enter] using ⟨rfl, rfl, rfl⟩
      · simpa [World.enter, hs] using .rfl
    · by_cases hs : r = s
      · subst hs
        simpa [Membership.enter, Membership.issue] using .inr hm
      · simpa [Membership.enter, Membership.issue, hs] using hm
    · exact Function.update_of_ne (hold r m hm) _ _
  | leave s _ hs =>
    obtain ⟨m, hm, hmc, he⟩ := Client.leaveRoom_evolves env hw.linked hs
    exact .of_expel he ((Thins.leaveRoom w c s).rules r) fun _ => .inl hmc
  | kick s m _ hm hguard => exact .kick hguard
  | banKick s m nick _ hm hguard =>
    have hf := Frame.modifyRoom w s (fun rm => { rm with bannedNicks := rm.bannedNicks.insert nick })
      rfl rfl
    have hban : Lawful c w₀ r w (w.modifyRoom s fun rm =>
        { rm with bannedNicks := rm.bannedNicks.insert nick }) := by
      by_cases hs : r = s
      · subst hs
        exact ⟨fun hb => by rw [hf.membership]; exact hb, by simp, .inl (by simp), .inr hguard,
          .inl Iff.rfl, .inl fun m hm _ => ⟨by simpa using hm, rfl⟩⟩
      · exact .of_frame hf (by simpa [hs] using .rfl)
    exact hban.trans (.kick hguard)
  | create name =>
    have hne : r ≠ ⟨w.nextRoom⟩ := by
      rintro rfl
      exact Nat.lt_irrefl _ hr
    refine .of_evolves ((found_evolves w name).then_frame (.modifyRoom _ _ _ rfl rfl)) ?_ .inr
      (.inl ?_) (.inl fun m hm _ => ⟨?_, rfl⟩)
    · simpa [World.found, hne] using .rfl
    · simp [Membership.found, hne, World.membership]
    · simpa [Membership.found, hne] using hm
  | raze s name _ hs hguard =>
    refine .of_evolves (Server.removeRoom_evolves hw.linked hs) ((Thins.removeRoom w name).rules r) id ?_ ?_
    · by_cases hrs : r = s
      · subst hrs
        exact .inr ⟨by simp [Membership.raze], hguard⟩
      · exact .inl (by simp [Membership.raze, hrs, World.membership])
    · by_cases hrs : r = s
      · subst hrs
        exact .inr (.inl ⟨by simp [Membership.raze], hguard⟩)
      · exact .inl fun m hm _ => ⟨by simpa [Membership.raze, hrs] using hm, rfl⟩
  | revive t k p _ hc ht hct hk hp =>
    have h' := hw.frame (Frame.emit w [(k, .packet p)])
    have he := (ClientsManager.reviveClient_evolves h'.indexed h'.linked hc ht hct hk).then_frame
      (Server.reviveClient_frame _ c t)
    exact .of_evolves ⟨he.registry, he.membership, he.nullDeref, he.hung, he.disk⟩
      ((Thins.emit w (by simpa using hp.not_speech)).trans (.reviveClient _ c t)|>.rules r) id (.inl Iff.rfl)
      (.inl fun m hm hne => ⟨⟨hm, hne⟩, rfl⟩)

theorem Lawful.steps {S : Bytes → Prop} (hw : WF env w) (hr : r ∈ w.membership.built)
    (h : Steps env c w₀ S w w') :
    Lawful c w₀ r w w' := by
  induction h with
  | refl => exact .refl w
  | tail hs hm ih => exact ih.trans (.move (hw.steps hs) (ih.built hr) hm)

theorem Client.isGuest_iff {cli : Client} : cli.isGuest ↔ cli.uid = 0 := by
  simp [Client.isGuest]

theorem Client.owns_iff (hl : w.membership.Linked) :
    Client.Owns w c r ↔ r ∈ (w.clientAt c).rooms ∧
      ((w.clientAt c).isAdmin ∨ (w.clientAt c).uid ≠ 0 ∧ (w.clientAt c).uid = (w.roomAt r).ownerId) := by
  have hright : ∀ m ∈ (w.roomAt r).members, (w.memberAt m).client = c →
      (Member.isOwner w m ↔ (w.clientAt c).isAdmin ∨
        (w.clientAt c).uid ≠ 0 ∧ (w.clientAt c).uid = (w.roomAt r).ownerId) := by
    intro m hm hc
    simp [Member.isOwner, Member.isAdmin, hc, show (w.memberAt m).room = r from hl.home r m hm]
  constructor
  · rintro ⟨m, hm, hc, ho⟩
    exact ⟨(hl.joinedIff c r).mpr ⟨m, hm, hc⟩, (hright m hm hc).mp ho⟩
  · rintro ⟨hr, ho⟩
    obtain ⟨m, hm, hc⟩ := (hl.joinedIff c r).mp hr
    exact ⟨m, hm, hc, (hright m hm hc).mpr ho⟩

theorem Client.moderates_iff (hl : w.membership.Linked) :
    Client.Moderates w c r ↔ r ∈ (w.clientAt c).rooms ∧
      ((w.clientAt c).isAdmin ∨ (w.clientAt c).uid ≠ 0 ∧
        ((w.clientAt c).uid = (w.roomAt r).ownerId ∨ (w.clientAt c).uid ∈ (w.roomAt r).moderators)) := by
  have hright : ∀ m ∈ (w.roomAt r).members, (w.memberAt m).client = c →
      (Member.isModer w m ↔ (w.clientAt c).isAdmin ∨ (w.clientAt c).uid ≠ 0 ∧
        ((w.clientAt c).uid = (w.roomAt r).ownerId ∨ (w.clientAt c).uid ∈ (w.roomAt r).moderators)) := by
    intro m hm hc
    simp [Member.isModer, Member.isOwner, Member.isAdmin, hc, and_or_left, or_assoc,
      show (w.memberAt m).room = r from hl.home r m hm]
  constructor
  · rintro ⟨m, hm, hc, ho⟩
    exact ⟨(hl.joinedIff c r).mpr ⟨m, hm, hc⟩, (hright m hm hc).mp ho⟩
  · rintro ⟨hr, ho⟩
    obtain ⟨m, hm, hc⟩ := (hl.joinedIff c r).mp hr
    exact ⟨m, hm, hc, (hright m hm hc).mpr ho⟩

/-- A packet changes the rules of a room, and who is in it, only by the rights its client has when
it arrives. -/
theorem run_rights_respected (env : Env) (es : List Event) (sv : AuthServices) (k : ConnectionPtr)
    (msg : Option Json) (c : ClientPtr) (hc : findClientByConnection (run env es) k = some c) (r : RoomPtr)
    (hr : r ∈ (run env es).rooms) :
    let w := run env es
    let w' := Server.onMessage env sv w k msg
    let cli := w.clientAt c
    let Member (w : World) (d : ClientPtr) := ∃ m ∈ (w.roomAt r).members, (w.memberAt m).client = d
    let owner := cli.isAdmin ∨ cli.uid ≠ 0 ∧ cli.uid = (w.roomAt r).ownerId
    let moder := owner ∨ cli.uid ≠ 0 ∧ cli.uid ∈ (w.roomAt r).moderators
    (w'.roomAt r).ownerId = (w.roomAt r).ownerId ∧
    ((w'.roomAt r).moderators ≠ (w.roomAt r).moderators → Member w c ∧ owner) ∧
    ((w'.roomAt r).bannedNicks ≠ (w.roomAt r).bannedNicks ∨
        (w'.roomAt r).bannedUids ≠ (w.roomAt r).bannedUids ∨
        (w'.roomAt r).bannedIps ≠ (w.roomAt r).bannedIps → Member w c ∧ moder) ∧
    (r ∉ w'.rooms → owner) ∧
    (∀ d ≠ c, Member w d → ¬ Member w' d → r ∉ w'.rooms ∧ owner ∨ Member w c ∧ moder) ∧
    (cli.uid = 0 → (w'.roomAt r).moderators = (w.roomAt r).moderators ∧
      (w'.roomAt r).bannedNicks = (w.roomAt r).bannedNicks ∧
      (w'.roomAt r).bannedUids = (w.roomAt r).bannedUids ∧
      (w'.roomAt r).bannedIps = (w.roomAt r).bannedIps ∧ r ∈ w'.rooms ∧
      ∀ d ≠ c, Member w d → Member w' d) := by
  intro w w' cli Member owner moder
  have hw : WF env w := wf_run env es
  obtain ⟨hcl, hk⟩ := ClientsManager.findClientByConnection_spec hw hc
  have hsteps : Steps env c w Anywhere w w' := by
    have hhandler : w' = Client.onPacket env sv w c msg := by
      simp only [w', Server.onMessage, w, hc]
    rw [hhandler]
    exact Client.onPacket_steps hw hcl hk sv msg
  have h : Lawful c w r w w' := .steps hw (hw.linked.built r hr) hsteps
  have howns : Client.Owns w c r → Member w c ∧ owner := fun ho => by
    obtain ⟨hj, ho⟩ := (Client.owns_iff hw.linked).mp ho
    exact ⟨(hw.linked.joinedIff c r).mp hj, ho⟩
  have hmoderates : Client.Moderates w c r → Member w c ∧ moder := fun hm => by
    obtain ⟨hj, hm⟩ := (Client.moderates_iff hw.linked).mp hm
    refine ⟨(hw.linked.joinedIff c r).mp hj, ?_⟩
    rcases hm with ha | ⟨h0, ho | hm⟩
    · exact .inl (.inl ha)
    · exact .inl (.inr ⟨h0, ho⟩)
    · exact .inr ⟨h0, hm⟩
  have hmay : Client.MayRaze w c r → owner := fun hm =>
    hm.imp_right fun h => ⟨fun h0 => h.1 (Client.isGuest_iff.mpr h0), h.2⟩
  have hmod : (w'.roomAt r).moderators ≠ (w.roomAt r).moderators → Member w c ∧ owner :=
    fun hne => howns (h.moderators.resolve_left hne)
  have hban : (w'.roomAt r).bannedNicks ≠ (w.roomAt r).bannedNicks ∨
      (w'.roomAt r).bannedUids ≠ (w.roomAt r).bannedUids ∨
      (w'.roomAt r).bannedIps ≠ (w.roomAt r).bannedIps → Member w c ∧ moder := fun hne => by
    refine hmoderates (h.bans.resolve_left fun he => ?_)
    simp only [Room.bans, Prod.mk.injEq] at he
    rcases hne with hn | hu | hi
    · exact hn he.1
    · exact hu he.2.2
    · exact hi he.2.1
  have hroom : r ∉ w'.rooms → owner := fun hgone =>
    hmay (h.rooms.resolve_left fun he => hgone (he.mpr hr)).2
  have hmem : ∀ d ≠ c, Member w d → ¬ Member w' d → r ∉ w'.rooms ∧ owner ∨ Member w c ∧ moder := by
    rintro d hd ⟨m, hm, rfl⟩ hgone
    rcases h.members with hkeep | hraze | hmoder
    · exact absurd ⟨m, hkeep m hm hd⟩ hgone
    · exact .inl ⟨hraze.1, hmay hraze.2⟩
    · exact .inr (hmoderates hmoder)
  refine ⟨h.owner, hmod, hban, hroom, hmem, fun hguest => ?_⟩
  have hadmin : ¬ cli.isAdmin := by simp [Client.isAdmin, hguest]
  have howner : ¬ owner := fun ho => ho.elim hadmin fun h0 => h0.1 hguest
  have hmoder : ¬ moder := fun hm => hm.elim howner fun h0 => h0.1 hguest
  refine ⟨by_contra fun hne => howner (hmod hne).2, by_contra fun hne => hmoder (hban (.inl hne)).2,
    by_contra fun hne => hmoder (hban (.inr (.inl hne))).2,
    by_contra fun hne => hmoder (hban (.inr (.inr hne))).2, by_contra fun hgone => howner (hroom hgone), ?_⟩
  intro d hd hm
  by_contra hgone
  rcases hmem d hd hm hgone with ⟨-, ho⟩ | ⟨-, hm⟩
  · exact howner ho
  · exact hmoder hm

namespace Sample

/-- A writer that tells messages apart. -/
def write (val : Json) : Bytes :=
  let shown (key : String) : Bytes := ((val.get (utf8 key) >>= Json.asString).toOption).getD []
  shown "id" ++ utf8 ". " ++ shown "from_login" ++ utf8 ": " ++ shown "message"

def surroundings : Env where
  realIp := fun _ => utf8 "10.0.0.1"
  sinid := fun _ => none
  maxHistory := 100
  write := write
  parse := fun _ => none

def services (uid : Int) (login : Bytes) : AuthServices where
  construct := .ok ()
  redisGet := fun _ => .ok none
  gateApiKey := .ok true
  resetApiKey := .ok ()
  gateLogin := .ok true
  resetLogin := .ok ()
  getUserIdByApiKey := fun _ => .ok none
  getUserByUid := fun _ => .ok none
  getUserByLoginAndPassword := fun _ _ => .ok (some ⟨uid, 2, login⟩)
  reconnect := .ok ()

def bob : AuthServices := services 7 (utf8 "bob")

def login : Json :=
  .obj [(utf8 "type", .int 4), (utf8 "login", .str (utf8 "login")), (utf8 "password", .str (utf8 "secret"))]

def ofTarget (type : Int) : Json :=
  .obj [(utf8 "type", .int type), (utf8 "target", .str (utf8 "#room")), (utf8 "auto_login", .bool true)]

def line (message : Bytes) : Json :=
  .obj [(utf8 "type", .int 2), (utf8 "target", .str (utf8 "#room")), (utf8 "message", .str message)]

def token (letter : UInt8) (h : letter ∈ Keygen.alphabet) : Token :=
  ⟨List.replicate tokenLength letter, List.length_replicate, fun _ hb => List.eq_of_mem_replicate hb ▸ h⟩

theorem mem_a : (97 : UInt8) ∈ Keygen.alphabet := by decide +kernel

theorem mem_b : (98 : UInt8) ∈ Keygen.alphabet := by decide +kernel

theorem mem_c : (99 : UInt8) ∈ Keygen.alphabet := by decide +kernel

def opens (now : Int) (k : Nat) (letter : UInt8) (h : letter ∈ Keygen.alphabet) : Event :=
  ⟨now, .connected ⟨k⟩ [token letter h]⟩

def sends (now : Int) (k : Nat) (msg : Json) (sv : AuthServices := bob) : Event :=
  ⟨now, .message ⟨k⟩ (some msg) sv⟩

def room : List Event :=
  [opens 0 1 97 mem_a, sends 1 1 login, sends 2 1 (ofTarget 8), sends 3 1 (ofTarget 6),
    opens 4 2 98 mem_b, sends 5 2 (ofTarget 6), sends 6 2 (line (utf8 "/nick foo"))]

end Sample

theorem run_rights_respected_owner :
    let w := run Sample.surroundings Sample.room
    let w' := Server.onMessage Sample.surroundings Sample.bob w ⟨1⟩ (some (Sample.line (utf8 "/bannick foo")))
    (w'.roomAt ⟨0⟩).bannedNicks ≠ (w.roomAt ⟨0⟩).bannedNicks ∧
      (w'.roomAt ⟨0⟩).members.elems = [⟨0⟩] ∧ (w.roomAt ⟨0⟩).members.elems = [⟨0⟩, ⟨1⟩] ∧
      (w'.roomAt ⟨0⟩).ownerId = (w.roomAt ⟨0⟩).ownerId := by
  intro w w'
  have h := run_rights_respected Sample.surroundings Sample.room Sample.bob ⟨1⟩
    (some (Sample.line (utf8 "/bannick foo"))) ⟨0⟩ (by decide +kernel) ⟨0⟩ (by decide +kernel)
  refine ⟨?_, by decide +kernel, by decide +kernel, h.1⟩
  have hban : (w'.roomAt ⟨0⟩).bannedNicks.elems ≠ (w.roomAt ⟨0⟩).bannedNicks.elems := by decide +kernel
  exact fun he => hban (congrArg IterSet.elems he)

end WsChat
