import WsChat.Upkeep
import WsChat.Flood
import WsChat.Lib.Forum

/-! The server as a forum: sessions that sit in named rooms under the law of each room. Every event is a turn of the
forum, which gives no one more than the law does. -/
namespace WsChat
open Lib Relation ClientsManager

structure Law where
  owner : UInt32
  moderators : IterSet UInt32 := ∅
  bannedNicks : IterSet Bytes := ∅
  bannedIps : IterSet Bytes := ∅
  bannedUids : IterSet UInt32 := ∅

def Room.law (rm : Room) : Law where
  owner := rm.ownerId
  moderators := rm.moderators
  bannedNicks := rm.bannedNicks
  bannedIps := rm.bannedIps
  bannedUids := rm.bannedUids

def Law.Owns (l : Law) (uid : UInt32) : Prop := uid = 1 ∨ uid = 2 ∨ uid ≠ 0 ∧ uid = l.owner

def Law.Moderates (l : Law) (uid : UInt32) : Prop := l.Owns uid ∨ uid ≠ 0 ∧ uid ∈ l.moderators

instance (l : Law) (uid : UInt32) : Decidable (l.Owns uid) :=
  inferInstanceAs (Decidable (uid = 1 ∨ uid = 2 ∨ uid ≠ 0 ∧ uid = l.owner))

instance (l : Law) (uid : UInt32) : Decidable (l.Moderates uid) :=
  inferInstanceAs (Decidable (l.Owns uid ∨ uid ≠ 0 ∧ uid ∈ l.moderators))

/-- The constitution of the server. -/
def polity : Polity Bytes UInt32 Law where
  guest := 0
  charter := fun uid => { owner := uid }
  owns := Law.Owns
  moderates := Law.Moderates
  admits := fun l ip uid => l.Moderates uid ∨ ip ∉ l.bannedIps ∧ uid ∉ l.bannedUids
  regulates := fun l l' => l'.owner = l.owner ∧ l'.moderators = l.moderators
  appoints := fun l l' => l' = { l with moderators := l'.moderators }

theorem polity_ranked : polity.Ranked := ⟨fun _ _ h => .inl h⟩

def Registry.session (g : Registry) (account : ClientPtr → UInt32) (c : ClientPtr) :
    Option (Session ConnectionPtr Bytes UInt32) :=
  if c ∈ g.clients then some ⟨g.connection c, g.lastClientIP c, account c⟩ else none

def World.account (w : World) (c : ClientPtr) : UInt32 := (w.clientAt c).uid

def World.law (w : World) (name : Bytes) : Option Law :=
  (Server.getRoomByName w name).map fun r => (w.roomAt r).law

/-- The server without its containers and pointers. -/
def World.forum (w : World) : Forum ClientPtr Bytes ConnectionPtr Bytes UInt32 Law where
  session := w.registry.session w.account
  used := {c | c.addr < w.nextClient}
  room := w.law
  seat := w.membership.seats
  saved := ({ disk := w.disk } : World).restart.law

section
variable {env : Env} {w w' : World} {c d t : ClientPtr} {k : ConnectionPtr} {r : RoomPtr} {m : MemberPtr}
  {name : Bytes} {l : Law} {ms : Membership ClientPtr RoomPtr MemberPtr Bytes} {q : Request ClientPtr UInt32}

theorem World.law_iff (hl : w.membership.Linked) :
    w.law name = some l ↔ ∃ r ∈ w.rooms, (w.roomAt r).name = name ∧ (w.roomAt r).law = l := by
  unfold World.law
  constructor
  · intro h
    obtain ⟨r, hr, he⟩ := Option.map_eq_some_iff.mp h
    obtain ⟨hin, hname⟩ := Server.mem_of_getRoomByName hr
    exact ⟨r, hin, hname, he⟩
  · rintro ⟨r, hr, hname, he⟩
    cases hfind : Server.getRoomByName w name with
    | none => exact absurd hname (Server.not_mem_of_getRoomByName hfind r hr)
    | some s =>
      obtain ⟨hs, hname'⟩ := Server.mem_of_getRoomByName hfind
      have hsr : s = r := hl.names s hs r hr (hname'.trans hname.symm)
      subst hsr
      exact congrArg some he

theorem World.law_of_mem (hl : w.membership.Linked) (hr : r ∈ w.rooms) :
    w.law (w.roomAt r).name = some (w.roomAt r).law := (World.law_iff hl).mpr ⟨r, hr, rfl, rfl⟩

theorem World.law_congr (hrooms : w'.rooms = w.rooms) (hname : ∀ r, (w'.roomAt r).name = (w.roomAt r).name)
    (hlaw : ∀ r, (w'.roomAt r).law = (w.roomAt r).law) : w'.law = w.law := by
  funext name
  unfold World.law Server.getRoomByName
  rw [hrooms]
  simp only [hname, hlaw]

theorem Thins.law (h : Thins w w') (hrooms : w'.rooms = w.rooms) : w'.law = w.law := by
  refine World.law_congr hrooms (fun r => (h.room r).1) fun r => ?_
  obtain ⟨-, howner, hmods, hnicks, hips, huids⟩ := h.room r
  unfold Room.law
  rw [howner, hmods, hnicks, hips, huids]

theorem Member.isModer_iff (hm : w.Holds c r m) :
    Member.isModer w m ↔ (w.roomAt r).law.Moderates (w.clientAt c).uid := by
  unfold Member.isModer Member.isOwner Member.isAdmin Client.isAdmin Law.Moderates Law.Owns
  rw [hm.client, hm.room]
  simp [Room.law, or_assoc]

theorem Member.isOwner_iff (hm : w.Holds c r m) :
    Member.isOwner w m ↔ (w.roomAt r).law.Owns (w.clientAt c).uid := by
  unfold Member.isOwner Member.isAdmin Client.isAdmin Law.Owns
  rw [hm.client, hm.room]
  simp [Room.law, or_assoc]

theorem Client.admitted_iff :
    Client.Admitted w c r ↔ polity.admits (w.roomAt r).law (w.clientAt c).lastClientIP (w.clientAt c).uid := by
  unfold Client.Admitted Client.isAdmin polity Law.Moderates Law.Owns
  simp only [Bool.or_eq_true, beq_iff_eq, Room.law, and_or_left, or_assoc]

section
variable {g : Registry} {account : ClientPtr → UInt32}

theorem Registry.session_of_not_mem (h : c ∉ g.clients) : g.session account c = none := if_neg h

theorem Registry.session_unlink : (g.unlink c).session account d =
    if d = c then (g.session account d).map fun s => { s with line := none } else g.session account d := by
  unfold Registry.session
  rw [Registry.unlink_clients, Registry.unlink_connection, Registry.unlink_lastClientIP]
  by_cases hd : d = c
  · subst hd
    rw [if_pos rfl, Function.update_self]
    split <;> rfl
  · rw [if_neg hd, Function.update_of_ne hd]

theorem Registry.session_forget (hn : g.clients.Nodup) :
    (g.forget c).session account d = if d = c then none else g.session account d := by
  have hin : d ∈ (g.forget c).clients ↔ d ≠ c ∧ d ∈ g.clients := hn.mem_erase_iff
  unfold Registry.session
  by_cases hd : d = c
  · rw [if_pos hd, if_neg fun h => (hin.mp h).1 hd]
  · rw [if_neg hd]
    exact if_congr (hin.trans (and_iff_right hd)) rfl rfl

theorem Registry.session_adopt (hn : g.clients.Nodup) (hct : c ≠ t) : (g.adopt env c t k).session account d =
    if d = t then (g.session account d).map fun s => { s with line := some k, address := env.realIp k }
    else if d = c then none else g.session account d := by
  have hin : d ∈ (g.adopt env c t k).clients ↔ d ≠ c ∧ d ∈ g.clients := hn.mem_erase_iff
  unfold Registry.session
  by_cases hdt : d = t
  · subst hdt
    have hline : (g.adopt env c d k).connection d = some k := Function.update_self ..
    have haddress : (g.adopt env c d k).lastClientIP d = env.realIp k := Function.update_self ..
    rw [if_pos rfl, hline, haddress]
    by_cases hd : d ∈ g.clients
    · rw [if_pos hd, if_pos (hin.mpr ⟨Ne.symm hct, hd⟩)]
      rfl
    · rw [if_neg hd, if_neg fun h => hd (hin.mp h).2]
      rfl
  · rw [if_neg hdt]
    by_cases hdc : d = c
    · rw [if_pos hdc, if_neg fun h => (hin.mp h).1 hdc]
    · have hline : (g.adopt env c t k).connection d = g.connection d :=
        (Function.update_of_ne hdt _ _).trans (Function.update_of_ne hdc _ _)
      have haddress : (g.adopt env c t k).lastClientIP d = g.lastClientIP d := Function.update_of_ne hdt _ _
      rw [if_neg hdc, hline, haddress]
      exact if_congr (hin.trans (and_iff_right hdc)) rfl rfl

theorem Registry.session_register {token : Bytes} : (g.register env k token).session account d =
    if d = ⟨g.nextClient⟩ then some ⟨some k, env.realIp k, account d⟩ else g.session account d := by
  have hin : d ∈ (g.register env k token).clients ↔ d ∈ g.clients ∨ d = ⟨g.nextClient⟩ := by
    have hclients : (g.register env k token).clients = g.clients ++ [⟨g.nextClient⟩] := rfl
    rw [hclients, List.mem_append, List.mem_singleton]
  unfold Registry.session
  by_cases hd : d = ⟨g.nextClient⟩
  · subst hd
    have hline : (g.register env k token).connection ⟨g.nextClient⟩ = some k := Function.update_self ..
    have haddress : (g.register env k token).lastClientIP ⟨g.nextClient⟩ = env.realIp k := Function.update_self ..
    rw [if_pos (hin.mpr (.inr rfl)), if_pos rfl, hline, haddress]
  · have hline : (g.register env k token).connection d = g.connection d := Function.update_of_ne hd _ _
    have haddress : (g.register env k token).lastClientIP d = g.lastClientIP d := Function.update_of_ne hd _ _
    rw [if_neg hd, hline, haddress]
    exact if_congr (hin.trans (or_iff_left hd)) rfl rfl

end

theorem World.session_of_mem (hc : c ∈ w.manager.clients) : w.forum.session c =
    some ⟨(w.clientAt c).connection, (w.clientAt c).lastClientIP, (w.clientAt c).uid⟩ := if_pos hc

theorem World.seat_of_holds (hl : w.membership.Linked) (hm : w.Holds c r m) : (c, (w.roomAt r).name) ∈ w.forum.seat :=
  ⟨r, (hl.joinedIff c r).mpr ⟨m, hm.mem, hm.client⟩, rfl⟩

theorem World.Holds.registered (hl : w.membership.Linked) (hm : w.Holds c r m) : c ∈ w.manager.clients := by
  have h : (w.memberAt m).client ∈ w.manager.clients := hl.registered r m hm.mem
  rwa [hm.client] at h

theorem World.forum_evolves {g : Registry} (he : Evolves w g ms w') : w'.forum =
    { session := g.session w'.account, used := {c | c.addr < g.nextClient}, room := w'.law, seat := ms.seats,
      saved := w.forum.saved } := by
  have hnext : w'.nextClient = g.nextClient := congrArg Registry.nextClient he.registry
  unfold World.forum
  rw [he.registry, he.membership, he.disk, hnext]

theorem World.forum_relink (he : Evolves w w.registry ms w') (haccount : w'.account = w.account) :
    w'.forum = { w.forum with room := w'.law, seat := ms.seats } := by
  rw [World.forum_evolves he, haccount]
  rfl

theorem World.forum_frame (hf : Frame w w') (haccount : w'.account = w.account) (hlaw : w'.law = w.law) :
    w'.forum = w.forum := by
  rw [World.forum_relink hf haccount, hlaw]
  rfl

theorem Still.account (hs : Still env c w w') : w'.account = w.account := by
  funext d
  obtain ⟨packetTime, messageTime, messageCounter, hd⟩ := hs.client d
  unfold World.account
  rw [hd]

theorem World.law_modifyRoom (hl : w.membership.Linked) (hr : r ∈ w.rooms) (f : Room → Room)
    (hname : (f (w.roomAt r)).name = (w.roomAt r).name) :
    (w.modifyRoom r f).law = Function.update w.law (w.roomAt r).name (some (f (w.roomAt r)).law) := by
  have hnames : ∀ s, ((w.modifyRoom r f).roomAt s).name = (w.roomAt s).name := by
    intro s
    by_cases hs : s = r
    · subst hs
      simpa using hname
    · simp [hs]
  have hfind : ∀ n, Server.getRoomByName (w.modifyRoom r f) n = Server.getRoomByName w n := by
    intro n
    unfold Server.getRoomByName
    simp only [hnames]
    rfl
  funext n
  unfold World.law
  rw [hfind]
  by_cases hn : n = (w.roomAt r).name
  · subst hn
    have hself : Server.getRoomByName w (w.roomAt r).name = some r := by
      cases hsome : Server.getRoomByName w (w.roomAt r).name with
      | none => exact absurd rfl (Server.not_mem_of_getRoomByName hsome r hr)
      | some s =>
        obtain ⟨hs, hname'⟩ := Server.mem_of_getRoomByName hsome
        exact congrArg some (hl.names s hs r hr hname')
    simp [hself]
  · rw [Function.update_of_ne hn]
    cases hsome : Server.getRoomByName w n with
    | none => rfl
    | some s =>
      have hs : s ≠ r := by
        rintro rfl
        exact hn (Server.mem_of_getRoomByName hsome).2.symm
      simp [hs]

theorem World.forum_modifyRoom (hl : w.membership.Linked) (hr : r ∈ w.rooms) (f : Room → Room)
    (hname : (f (w.roomAt r)).name = (w.roomAt r).name) (hmembers : (f (w.roomAt r)).members = (w.roomAt r).members) :
    (w.modifyRoom r f).forum = w.forum.rule (w.roomAt r).name (f (w.roomAt r)).law := by
  rw [World.forum_relink (Frame.modifyRoom w r f hmembers hname) rfl, World.law_modifyRoom hl hr f hname]
  rfl

theorem Still.moves (hw : WF env w) (hq : q.sender = c) (hs : Still env c w w') :
    Forum.Moves polity q w.forum w'.forum := by
  subst hq
  have hl := hw.linked
  have hidle : w'.law = w.law → Forum.Moves polity q w.forum w'.forum := by
    intro hlaw
    rw [World.forum_frame hs.frame hs.account hlaw]
  cases hs with
  | answer | list | touch | whisper | presence | typing | dress | rename => exact hidle rfl
  | restyle =>
    refine hidle ?_
    rw [Member.announce_eq]
    rfl
  | say r =>
    refine hidle ?_
    rw [Room.say_eq]
    refine World.law_congr rfl (fun s => ?_) fun s => ?_
    · by_cases hs : s = r
      · subst hs
        simp
      · simp [hs]
    · by_cases hs : s = r
      · subst hs
        simp [Room.law]
      · simp [hs]
  | ban r m nicks ips uids hm hright =>
    have hr : r ∈ w.rooms := hl.listed r m hm.mem
    rw [World.forum_modifyRoom hl hr _ rfl rfl]
    refine .single (.regulate _ _ _ _ (World.session_of_mem (hm.registered hl)) (World.law_of_mem hl hr)
      (World.seat_of_holds hl hm) ?_ ⟨rfl, rfl⟩)
    exact (Member.isModer_iff hm).mp hright
  | appoint r m moderators hm hright =>
    have hr : r ∈ w.rooms := hl.listed r m hm.mem
    rw [World.forum_modifyRoom hl hr _ rfl rfl]
    refine .single (.appoint _ _ _ _ (World.session_of_mem (hm.registered hl)) (World.law_of_mem hl hr)
      (World.seat_of_holds hl hm) ?_ rfl)
    exact (Member.isOwner_iff hm).mp hright

theorem World.forum_expel (hl : w.membership.Linked) (hr : r ∈ w.rooms)
    (he : Evolves w w.registry (w.membership.expel r m) w') (ht : Thins w w') (hrooms : w'.rooms = w.rooms) :
    w'.forum = w.forum.leave (w.memberAt m).client (w.roomAt r).name := by
  have haccount : w'.account = w.account := funext ht.uid
  rw [World.forum_relink he haccount, ht.law hrooms, hl.seats_expel hr]
  rfl

theorem World.issue_forum (w : World) (c : ClientPtr) (s : RoomPtr) (id : UInt32) : (w.issue c s id).forum = w.forum := by
  have hlaw : (w.issue c s id).law = w.law := by
    refine World.law_congr rfl (fun r => ?_) fun r => ?_
    · by_cases hr : r = s
      · subst hr
        simp [World.issue]
      · simp [World.issue, hr]
    · by_cases hr : r = s
      · subst hr
        simp [World.issue, Room.law]
      · simp [World.issue, hr]
  rw [World.forum_relink (issue_evolves w c s id) rfl, hlaw]
  rfl

theorem Client.leaveRoom_forum (hl : w.membership.Linked) (hr : r ∈ (w.clientAt c).rooms) :
    (Client.leaveRoom env w c r).forum = w.forum.leave c (w.roomAt r).name := by
  obtain ⟨m, hm, hwho, he⟩ := Client.leaveRoom_evolves env hl hr
  have hclient : (w.memberAt m).client = c := hwho
  have hrooms : (Client.leaveRoom env w c r).rooms = w.rooms := by
    obtain ⟨n, hfind⟩ := Room.findMemberByClient_isSome hl hr
    rw [Client.leaveRoom_eq hr hfind]
    rfl
  rw [World.forum_expel hl (hl.listed_of_joined hr) he (Thins.leaveRoom w c r) hrooms, hclient]

theorem Room.kickMember_forum (hl : w.membership.Linked) (hm : m ∈ (w.roomAt r).members) :
    (Room.kickMember env w r m).forum = w.forum.leave (w.memberAt m).client (w.roomAt r).name := by
  have hrooms : (Room.kickMember env w r m).rooms = w.rooms := by
    rw [Room.kickMember_eq]
    rfl
  exact World.forum_expel hl (hl.listed r m hm) Room.kickMember_evolves (Thins.kickMember w r m) hrooms

theorem World.law_found (hl : w.membership.Linked) (hl' : (w.found name).membership.Linked) (hne : ∀ r ∈ w.rooms,
    r ≠ ⟨w.nextRoom⟩) {n : Bytes} (hn : n ≠ name) : (w.found name).law n = w.law n := by
  have hold : ∀ r, r ≠ ⟨w.nextRoom⟩ → (w.found name).roomAt r = w.roomAt r := fun r hr => by simp [World.found, hr]
  refine Option.ext fun l => ?_
  rw [World.law_iff hl', World.law_iff hl]
  constructor
  · rintro ⟨r, hr, hrn, hrl⟩
    have hrold : r ≠ ⟨w.nextRoom⟩ := by
      rintro rfl
      exact hn (hrn.symm.trans (by simp [World.found]))
    rw [hold r hrold] at hrn hrl
    cases IterSet.mem_insert.mp hr with
    | inl he => exact absurd he hrold
    | inr hin => exact ⟨r, hin, hrn, hrl⟩
  · rintro ⟨r, hr, hrn, hrl⟩
    refine ⟨r, IterSet.mem_insert.mpr (.inr hr), ?_, ?_⟩
    · rw [hold r (hne r hr), hrn]
    · rw [hold r (hne r hr), hrl]

theorem World.found_forum (hl : w.membership.Linked) (hname : Server.getRoomByName w name = none) (uid : UInt32) :
    ((w.found name).modifyRoom ⟨w.nextRoom⟩ fun rm => { rm with ownerId := uid }).forum =
      w.forum.rule name { owner := uid } := by
  have hnew : (⟨w.nextRoom⟩ : RoomPtr) ∉ w.membership.built := fun hb => Nat.lt_irrefl _ hb
  have hev := (found_evolves w name).then_frame (Frame.modifyRoom (w.found name) ⟨w.nextRoom⟩
    (fun rm => { rm with ownerId := uid }) rfl rfl)
  have hlinked := hl.found hnew (Server.not_mem_of_getRoomByName hname)
  have hl' : (w.found name).membership.Linked := (found_evolves w name).membership ▸ hlinked
  have hlisted : (⟨w.nextRoom⟩ : RoomPtr) ∈ (w.found name).rooms := IterSet.mem_insert.mpr (.inl rfl)
  have hroom : (w.found name).roomAt ⟨w.nextRoom⟩ = { name := name } := by simp [World.found]
  have hne : ∀ r ∈ w.rooms, r ≠ ⟨w.nextRoom⟩ := by
    rintro r hr rfl
    exact hnew (hl.built _ hr)
  rw [World.forum_relink hev rfl, hl.seats_found hnew, World.law_modifyRoom hl' hlisted _ rfl, hroom]
  refine Forum.ext rfl rfl (funext fun n => ?_) rfl rfl
  change Function.update (w.found name).law name (some { owner := uid }) n =
    Function.update w.law name (some { owner := uid }) n
  by_cases hn : n = name
  · rw [hn, Function.update_self, Function.update_self]
  · rw [Function.update_of_ne hn, Function.update_of_ne hn, World.law_found hl hl' hne hn]

theorem Server.removeRoom_forum (hl : w.membership.Linked) (hr : Server.getRoomByName w name = some r) :
    (Server.removeRoom env w name).forum = w.forum.raze name := by
  obtain ⟨hin, hname⟩ := Server.mem_of_getRoomByName hr
  have hev : Evolves w w.registry (w.membership.raze r) (Server.removeRoom env w name) :=
    Server.removeRoom_evolves hl hr
  have hl' : (Server.removeRoom env w name).membership.Linked := hev.membership ▸ hl.raze
  have haccount : (Server.removeRoom env w name).account = w.account := funext (Thins.removeRoom w name).uid
  have hlaw : (Server.removeRoom env w name).law = Function.update w.law name none := by
    obtain ⟨info, out, -, hremove⟩ := Server.removeRoom_eq env hl hr
    rw [hremove] at hl' ⊢
    funext n
    refine Option.ext fun l => ?_
    rw [World.law_iff hl']
    by_cases hn : n = name
    · subst hn
      simp only [Function.update_self, reduceCtorEq, iff_false]
      rintro ⟨s, hs, hsn, -⟩
      obtain ⟨hne, hold⟩ := IterSet.mem_erase.mp hs
      simp only [Function.update_of_ne hne] at hsn
      exact hne (hl.names s hold r hin (hsn.trans hname.symm))
    · rw [Function.update_of_ne hn, World.law_iff hl]
      constructor
      · rintro ⟨s, hs, hsn, hsl⟩
        obtain ⟨hne, hold⟩ := IterSet.mem_erase.mp hs
        simp only [Function.update_of_ne hne] at hsn hsl
        exact ⟨s, hold, hsn, hsl⟩
      · rintro ⟨s, hs, hsn, hsl⟩
        have hne : s ≠ r := by
          rintro rfl
          exact hn (hsn.symm.trans hname)
        refine ⟨s, IterSet.mem_erase.mpr ⟨hne, hs⟩, ?_, ?_⟩
        · simpa only [Function.update_of_ne hne] using hsn
        · simpa only [Function.update_of_ne hne] using hsl
  have hnamed : w.membership.name r = name := hname
  rw [World.forum_relink hev haccount, hlaw, hl.seats_raze hin, hnamed]
  rfl

theorem Client.MayRaze.owns (h : Client.MayRaze w c r) : (w.roomAt r).law.Owns (w.clientAt c).uid := by
  cases h with
  | inl hadmin =>
    have hadmin : (w.clientAt c).uid = 1 ∨ (w.clientAt c).uid = 2 := by simpa [Client.isAdmin] using hadmin
    exact hadmin.imp_right Or.inl
  | inr howner => exact .inr (.inr ⟨by simpa [Client.isGuest] using howner.1, howner.2⟩)

theorem Feat.moves (hw : WF env w) (hq : q.sender = c) (hc : c ∈ w.manager.clients) (hf : Feat env c w w') :
    Forum.Moves polity q w.forum w'.forum := by
  subst hq
  have hl := hw.linked
  have hsession := World.session_of_mem hc
  cases hf with
  | still hs => exact hs.moves hw rfl
  | hang => exact .refl
  | refuse s id => rw [World.issue_forum]
  | leave r hr =>
    rw [Client.leaveRoom_forum hl hr]
    exact .single (.leave _ ⟨r, hr, rfl⟩)
  | kick r m m2 hm hright hm2 =>
    rw [Room.kickMember_forum hl hm2]
    refine .single (.expel _ _ _ _ hsession (World.law_of_mem hl (hl.listed r m hm.mem)) (World.seat_of_holds hl hm) ?_ ?_)
    · exact (Member.isModer_iff hm).mp hright
    · exact ⟨r, (hl.joinedIff _ r).mpr ⟨m2, hm2, rfl⟩, rfl⟩
  | create name hfull hname huid =>
    have hfree : w.forum.room name = none := by
      change (Server.getRoomByName w name).map _ = none
      rw [hname]
      rfl
    rw [World.found_forum hl hname]
    exact .single (.found name _ hsession huid hfree)
  | raze r name hr hguard =>
    obtain ⟨hin, hname⟩ := Server.mem_of_getRoomByName hr
    rw [Server.removeRoom_forum hl hr]
    exact .single (.raze name _ _ hsession ((World.law_iff hl).mpr ⟨r, hin, hname, rfl⟩) hguard.owns)

theorem Feats.moves (hw : WF env w) (hq : q.sender = c) (hc : c ∈ w.manager.clients) (hf : Feats env c w w') :
    Forum.Moves polity q w.forum w'.forum := by
  have hstep : ∀ w₁ w₂, WF env w₁ → w₁.registry = w.registry ∧ Forum.Moves polity q w.forum w₁.forum →
      Feat env c w₁ w₂ → w₂.registry = w.registry ∧ Forum.Moves polity q w.forum w₂.forum := by
    intro w₁ w₂ hw₁ hp hfeat
    have hclients : w₁.manager.clients = w.manager.clients := congrArg Registry.clients hp.1
    exact ⟨(hfeat.registry hw₁).trans hp.1, hp.2.trans (hfeat.moves hw₁ hq (hclients ▸ hc))⟩
  exact (Feats.keep (P := fun w' => w'.registry = w.registry ∧ Forum.Moves polity q w.forum w'.forum) hstep hf hw
    ⟨rfl, .refl⟩).2

theorem Server.reviveClient_forum (hw : WF env w) (hc : c ∈ w.manager.clients) (ht : t ∈ w.manager.clients)
    (hct : c ≠ t) (hk : (w.clientAt c).connection = some k) :
    (Server.reviveClient env w c t).1.forum = w.forum.resume c t k (w.clientAt c).lastClientIP := by
  have he := (reviveClient_evolves hw.indexed hw.linked hc ht hct hk).then_frame (Server.reviveClient_frame w c t)
  have hthin : Thins w (Server.reviveClient env w c t).1 := .reviveClient w c t
  have haccount : (Server.reviveClient env w c t).1.account = w.account := funext hthin.uid
  have hlaw : (Server.reviveClient env w c t).1.law = w.law := by
    refine hthin.law ?_
    obtain ⟨manager, clamped, closing, he⟩ := Server.reviveClient_normal env hw.linked hct hk
    rw [he]
    rfl
  have hnext : ((w.registry.unlink t).adopt env c t k).nextClient = w.nextClient :=
    Registry.unlink_nextClient w.registry t
  have hnodup : (w.registry.unlink t).clients.Nodup := by
    rw [Registry.unlink_clients]
    exact hw.indexed.nodup
  have haddress : env.realIp k = (w.clientAt c).lastClientIP := (hw.indexed.address c hc k hk).symm
  rw [World.forum_evolves he, haccount, hlaw, Membership.seats_withdraw, hnext]
  refine Forum.ext (funext fun d => ?_) rfl rfl rfl rfl
  unfold Forum.resume
  rw [Forum.session_amend, Forum.session_drop, ← haddress]
  refine (Registry.session_adopt hnodup hct).trans ?_
  rw [Registry.session_unlink]
  by_cases hd : d = t
  · subst hd
    rw [if_pos rfl, if_pos rfl, if_pos rfl, if_neg (Ne.symm hct), Option.map_map]
    rfl
  · rw [if_neg hd, if_neg hd, if_neg hd]
    rfl

/-- What a packet of a client tells the forum. Only an auth packet proves an account or presents a token. -/
def World.request (env : Env) (w : World) (sv : AuthServices) (c : ClientPtr) (p : Packet) :
    Request ClientPtr UInt32 where
  sender := c
  proves := {u | ∃ a info, p = .auth a ∧ a.Proved env sv ((w.clientAt c).connection.bind env.sinid) info ∧
    u = UInt32.ofInt info.uid}
  presents := {t | ∃ a, p = .auth a ∧ a.token ≠ [] ∧ (w.clientAt t).token = a.token}

theorem PacketAuth.initUser_forum (w : World) (c : ClientPtr) (user : DbUserInfo) (q : Packet) :
    ((PacketAuth.initUser env w c user).emit ((PacketAuth.initUser env w c user).mail c (.packet q))).forum =
      w.forum.amend c fun s => { s with account := UInt32.ofInt user.uid } := by
  have hf : Frame w (PacketAuth.initUser env w c user) := Frame.modifyClient w c _ rfl rfl rfl rfl
  have haccount : ∀ d, (PacketAuth.initUser env w c user).account d =
      if d = c then UInt32.ofInt user.uid else w.account d := by
    intro d
    by_cases hd : d = c
    · simp [World.account, PacketAuth.initUser, hd]
    · simp [World.account, PacketAuth.initUser, hd]
  rw [World.forum_evolves (hf.trans (Frame.emit _ _))]
  refine Forum.ext (funext fun d => ?_) rfl rfl rfl rfl
  rw [Forum.session_amend]
  change w.registry.session (PacketAuth.initUser env w c user).account d = _
  unfold World.forum Registry.session
  dsimp only
  rw [haccount]
  by_cases hd : d = c
  · rw [if_pos hd, if_pos hd]
    split <;> rfl
  · rw [if_neg hd, if_neg hd]

theorem World.enter_forum (w : World) (c : ClientPtr) (r : RoomPtr) (id : UInt32)
    (out : List (ConnectionPtr × Wire)) :
    ((w.enter c r id).emit out).forum = w.forum.enter c (w.roomAt r).name := by
  have hev := (enter_evolves w c r id).then_frame (Frame.emit (w.enter c r id) out)
  have haccount : (w.enter c r id).account = w.account := by
    funext d
    obtain ⟨rooms, hd⟩ := w.rooms_update c d ((w.clientAt c).rooms.insert r w.order.connectedRooms)
    have hsame : (w.enter c r id).clientAt d = { w.clientAt d with rooms := rooms } := hd
    unfold World.account
    rw [hsame]
  have hlaw : (w.enter c r id).law = w.law := by
    refine World.law_congr rfl (fun s => ?_) fun s => ?_
    · by_cases hs : s = r
      · subst hs
        simp [World.enter]
      · simp [World.enter, hs]
    · by_cases hs : s = r
      · subst hs
        simp [World.enter, Room.law]
      · simp [World.enter, hs]
  refine (World.forum_relink hev haccount).trans ?_
  rw [Membership.seats_enter]
  exact Forum.ext rfl rfl hlaw rfl rfl

theorem Course.turn {sv : AuthServices} {p : Packet} (hw : WF env w) (hc : c ∈ w.manager.clients)
    (h : Course env sv c p w w') : Forum.Turn polity w.forum (.request (w.request env sv c p)) w'.forum := by
  have hsession := World.session_of_mem hc
  cases h with
  | feats hf => exact .moves _ (hf.moves hw rfl hc)
  | login a user q ha hproved =>
    cases user with
    | none => exact .moves _ .refl
    | some user =>
      change Forum.Turn polity w.forum _
        ((PacketAuth.initUser env w c user).emit ((PacketAuth.initUser env w c user).mail c (.packet q))).forum
      rw [PacketAuth.initUser_forum]
      exact .identify _ _ _ hsession ⟨a, user, ha, hproved user rfl, rfl⟩
  | enter r id sequenceId loadHistory hc hr hcr hid ha hs =>
    have hl := hw.linked
    have hev := (enter_evolves w c r id).then_frame (Frame.emit (w.enter c r id)
      ((w.enter c r id).welcomeMail c r ⟨w.nextMember⟩ sequenceId loadHistory))
    have hw₁ := hw.relink hev (hl.enter w.not_issued hc hr hcr)
    have hout : (c, (w.roomAt r).name) ∉ w.forum.seat := by
      rintro ⟨s, hs, hname⟩
      have hsr : s = r := hl.names s (hl.listed_of_joined hs) r hr hname
      exact hcr (hsr ▸ hs)
    have henter : Forum.Move polity (w.request env sv c p) w.forum (w.forum.enter c (w.roomAt r).name) :=
      .enter _ _ _ hsession (World.law_of_mem hl hr) hout (Client.admitted_iff.mp ha)
    refine .moves _ (.head henter ?_)
    rw [← World.enter_forum w c r id]
    exact Feats.moves hw₁ rfl hc (Stills.feats hs)
  | revive a t k q ha htoken _ hc ht hct hk =>
    have hw₁ : WF env (w.emit [(k, .packet q)]) := hw.frame (Frame.emit w _)
    rw [Server.reviveClient_forum hw₁ hc ht hct hk]
    have htaken : t ∈ (w.request env sv c p).presents := ⟨a, ha, htoken⟩
    exact .moves _ (.single (.resume t _ _ k hsession hk (World.session_of_mem ht) hct htaken))

theorem ClientsManager.makeOrphan_forum (hw : WF env w) (hc : c ∈ w.manager.clients) :
    (makeOrphan env w c).forum = w.forum.amend c fun s => { s with line := none } := by
  have he := makeOrphan_evolves hw.indexed hw.linked hc
  have hthin : Thins w (makeOrphan env w c) := .makeOrphan w c
  have haccount : (makeOrphan env w c).account = w.account := funext hthin.uid
  have hrooms : (makeOrphan env w c).rooms = w.rooms := by
    cases hk : (w.clientAt c).connection with
    | none =>
      unfold ClientsManager.makeOrphan
      rw [hk]
    | some k =>
      obtain ⟨manager, clamped, he⟩ := ClientsManager.makeOrphan_normal hw.indexed hw.linked hc hk
      rw [he]
      rfl
  have hnext : (w.registry.unlink c).nextClient = w.nextClient := Registry.unlink_nextClient w.registry c
  rw [World.forum_evolves he, haccount, hthin.law hrooms, hnext]
  refine Forum.ext (funext fun d => ?_) rfl rfl rfl rfl
  rw [Forum.session_amend]
  exact Registry.session_unlink

theorem ClientsManager.remove_forum (hi : w.registry.Indexed env) (hl : w.membership.Linked)
    (hc : c ∈ w.manager.clients) : (remove env w c).forum = w.forum.drop c := by
  have he := remove_evolves hi hl hc
  have hthin : Thins w (remove env w c) := .remove w c
  have haccount : (remove env w c).account = w.account := funext hthin.uid
  have hrooms : (remove env w c).rooms = w.rooms := by
    have hnormal : ∃ manager clamped, ClientsManager.remove env w c =
        { w.withdraw c with manager := manager, clamped := clamped } := remove_normal hl
    obtain ⟨manager, clamped, he⟩ := hnormal
    rw [he]
    rfl
  have hnext : ((w.registry.unlink c).forget c).nextClient = w.nextClient := Registry.unlink_nextClient w.registry c
  have hnodup : (w.registry.unlink c).clients.Nodup := by
    rw [Registry.unlink_clients]
    exact hi.nodup
  rw [World.forum_evolves he, haccount, hthin.law hrooms, Membership.seats_withdraw, hnext]
  refine Forum.ext (funext fun d => ?_) rfl rfl rfl rfl
  rw [Forum.session_drop]
  refine (Registry.session_forget hnodup).trans ?_
  rw [Registry.session_unlink]
  by_cases hd : d = c
  · rw [if_pos hd, if_pos hd]
  · rw [if_neg hd, if_neg hd, if_neg hd]
    rfl

theorem ClientPtr.below_succ (n : Nat) :
    {c : ClientPtr | c.addr < n + 1} = insert ⟨n⟩ {c : ClientPtr | c.addr < n} := by
  ext ⟨a⟩
  simp only [Set.mem_ofPred_eq, Set.mem_insert_iff, ClientPtr.mk.injEq]
  omega

theorem ClientsManager.connect_chores (hi : w.registry.Indexed env) (hl : w.membership.Linked) (k : ConnectionPtr)
    (draws : List Token) : Forum.Chores polity w.forum (connect env w k draws).forum := by
  have hnew : (⟨w.nextClient⟩ : ClientPtr) ∉ w.membership.clients := fun hc => Nat.lt_irrefl _ (hi.fresh _ hc)
  cases connect_evolves env w k draws with
  | inr hhang =>
    rw [hhang]
    exact .refl
  | inl hcase =>
    obtain ⟨token, hne, htoken, he⟩ := hcase
    have haccount : ∀ d, (connect env w k draws).account d = if d = ⟨w.nextClient⟩ then 0 else w.account d := by
      intro d
      have hgrown : (connect env w k draws).nextClient = w.nextClient + 1 := congrArg Registry.nextClient he.registry
      unfold ClientsManager.connect at hgrown ⊢
      split
      · rename_i hnone
        rw [hnone] at hgrown
        exact absurd hgrown (by simp)
      · by_cases hd : d = ⟨w.nextClient⟩
        · simp [World.account, Client.setConnection, hd]
        · simp [World.account, Client.setConnection, hd]
    have hlaw : (connect env w k draws).law = w.law := by
      have hrooms : (connect env w k draws).rooms = w.rooms := by
        unfold ClientsManager.connect
        split <;> rfl
      have hroom := (connect_heap env w k draws).2
      exact World.law_congr hrooms (fun r => by rw [hroom]) fun r => by rw [hroom]
    have hforum : (connect env w k draws).forum = w.forum.arrive ⟨w.nextClient⟩ ⟨some k, env.realIp k, 0⟩ := by
      rw [World.forum_evolves he, hlaw, hl.seats_enroll hnew]
      refine Forum.ext (funext fun d => ?_) (ClientPtr.below_succ w.nextClient) rfl rfl rfl
      refine Registry.session_register.trans ?_
      unfold Forum.arrive
      dsimp only
      by_cases hd : d = ⟨w.nextClient⟩
      · subst hd
        have hzero : (connect env w k draws).account ⟨w.nextClient⟩ = 0 := (haccount _).trans (if_pos rfl)
        rw [hzero, Function.update_self]
        exact if_pos rfl
      · have hold : (connect env w k draws).account d = w.account d := (haccount d).trans (if_neg hd)
        rw [Function.update_of_ne hd]
        refine (if_neg hd).trans ?_
        unfold World.forum Registry.session
        dsimp only
        rw [hold]
    rw [hforum]
    exact .single (.arrive _ _ _ fun h => Nat.lt_irrefl _ h)

theorem Routine.chores (hw : WF env w) (hr : Routine env w w') : Forum.Chores polity w.forum w'.forum := by
  cases hr with
  | clock | mark => exact .refl
  | opening k draws =>
    have hi := World.arrival_indexed (k := k) hw
    have hl : (w.arrival env k).membership.Linked := hw.linked
    rcases Server.onOpen_cases env hw k draws with ⟨-, he⟩ | ⟨-, ⟨-, he⟩ | ⟨c, hc, -, hck, -, he⟩⟩
    · rw [he]
      exact .refl
    · rw [he]
      exact connect_chores hi hl k draws
    · rw [he]
      have hev := remove_orphan_evolves hi hl hc hck
      have hdrop : Forum.Chore polity w.forum (remove env (w.arrival env k) c).forum := by
        rw [remove_forum hi hl hc]
        exact .drop c _ (World.session_of_mem hc)
      refine .head hdrop (connect_chores ?_ ?_ k draws)
      · exact hev.registry ▸ hi.forget hc hck
      · exact hev.membership ▸ hl.withdraw
  | ping c =>
    rw [Client.sendPacket_eq]
    exact .refl
  | orphan c hc =>
    rw [makeOrphan_forum hw hc]
    exact .single (.cut c _ (World.session_of_mem hc))
  | drop c hc =>
    rw [remove_forum hw.indexed hw.linked hc]
    exact .single (.drop c _ (World.session_of_mem hc))

theorem Routines.chores (hw : WF env w) (hr : Routines env w w') : Forum.Chores polity w.forum w'.forum :=
  steps_preserve_under (Q := fun w' => Forum.Chores polity w.forum w'.forum) (fun _ _ hw hr => hw.routine hr)
    (fun _ _ hw hq hr => hq.trans (hr.chores hw)) hr hw .refl

theorem World.restart_law_iff {w₀ : World} (hd : w.disk = Server.serialize w₀)
    (hn : ∀ r ∈ w₀.rooms, ∀ s ∈ w₀.rooms, (w₀.roomAt r).name = (w₀.roomAt s).name → r = s) :
    w.restart.law name = some l ↔ ∃ r ∈ w₀.rooms, (w₀.roomAt r).name = name ∧ (w₀.roomAt r).law = l := by
  obtain ⟨ms, hms, he⟩ := World.restart_evolves (.inr ⟨w₀, hd, hn⟩)
  have hl : w.restart.membership.Linked := he.membership ▸ hms
  have hrooms : (w.restart.rooms.elems.map w.restart.roomAt).Perm (w₀.rooms.elems.map fun r => (w₀.roomAt r).reloaded) := by
    unfold World.restart
    rw [hd]
    exact (Server.deserialize_rooms w.fresh w₀).1
  rw [World.law_iff hl]
  constructor
  · rintro ⟨r, hr, hname, hlaw⟩
    obtain ⟨s, hs, hsr⟩ := List.mem_map.mp (hrooms.mem_iff.mp (List.mem_map_of_mem hr))
    rw [← hsr] at hname hlaw
    exact ⟨s, hs, hname, hlaw⟩
  · rintro ⟨s, hs, hname, hlaw⟩
    obtain ⟨r, hr, hrs⟩ := List.mem_map.mp (hrooms.mem_iff.mpr (List.mem_map_of_mem hs))
    exact ⟨r, hr, by rw [hrs]; exact hname, by rw [hrs]; exact hlaw⟩

theorem World.restart_law (hsaved : w.Saved) : w.restart.law = ({ disk := w.disk } : World).restart.law := by
  cases hsaved with
  | inl hd =>
    unfold World.restart
    rw [hd]
    rfl
  | inr hfile =>
    obtain ⟨w₀, hd, hn⟩ := hfile
    funext name
    refine Option.ext fun l => ?_
    rw [World.restart_law_iff hd hn, World.restart_law_iff (w := { disk := w.disk }) hd hn]

theorem World.save_forum (hl : w.membership.Linked) :
    World.forum { w with disk := Server.serialize w } = w.forum.save := by
  refine Forum.ext rfl rfl rfl rfl (funext fun name => Option.ext fun l => ?_)
  refine (World.restart_law_iff (w := { disk := Server.serialize w }) rfl hl.names).trans ?_
  exact (World.law_iff hl).symm

theorem World.restart_forum (hw : WF env w) : w.restart.forum = w.forum.restart := by
  obtain ⟨ms, hms, he⟩ := World.restart_evolves hw.saved
  have hnone : ms.seats = ∅ := by
    refine Set.eq_empty_iff_forall_notMem.mpr fun x hx => ?_
    obtain ⟨r, hr, -⟩ := hx
    rw [← he.membership] at hms hr
    have hc : x.1 ∈ w.restart.registry.clients := hms.registered_of_joined hr
    rw [he.registry] at hc
    cases hc
  have hused : {c : ClientPtr | c.addr < w.fresh.registry.nextClient} = ∅ :=
    Set.eq_empty_iff_forall_notMem.mpr fun c hc => Nat.not_lt_zero _ hc
  have hsession : w.fresh.registry.session w.restart.account = fun _ => none :=
    funext fun c => Registry.session_of_not_mem List.not_mem_nil
  rw [World.forum_evolves he, hnone, hused, hsession, World.restart_law hw.saved]
  rfl

def Act.isChore : Act → Prop
  | .connected _ _ | .closed _ _ | .failed _ | .tick => True
  | .message _ _ _ | .save | .restart => False

/-- What an event is for the forum: the request of the client whose connection the packet came on; a packet that is
not heard, because the server hangs, no client has the connection, or it cannot be read; or no packet at all. -/
def World.Causes (env : Env) (w : World) (e : Event) : Cause ClientPtr UInt32 → Prop
  | .request q => ∃ k msg sv c p, e.act = .message k msg sv ∧ c ∈ w.manager.clients ∧
      (w.clientAt c).connection = some k ∧ e.act.packet env = some p ∧ q = w.request env sv c p
  | .unheard => ∃ k msg sv, e.act = .message k msg sv ∧
      (w.hung = true ∨ (∀ c ∈ w.manager.clients, (w.clientAt c).connection ≠ some k) ∨ e.act.packet env = none)
  | .chore => e.act.isChore
  | .save => e.act = .save
  | .restart => e.act = .restart

theorem World.message_turn (hw : WF env w) {e : Event} {msg : Option Json} {sv : AuthServices}
    (hact : e.act = .message k msg sv) :
    ∃ cause, w.Causes env e cause ∧ Forum.Turn polity w.forum cause (w.step env e).forum := by
  rcases World.message_course hw hact with ⟨hwhy, hdrop⟩ | ⟨c, p, hc, hk, hp, hcourse⟩
  · rw [hdrop]
    exact ⟨.unheard, ⟨k, msg, sv, hact, hwhy⟩, .unheard⟩
  · refine ⟨.request (w.request env sv c p), ⟨k, msg, sv, c, p, hact, hc, hk, hp, rfl⟩, ?_⟩
    let w₁ := World.modifyClient { w with now := e.now } c fun cli => { cli with lastPacketTime := e.now }
    have hframe : Frame { w with now := e.now } w₁ := Frame.modifyClient _ c _ rfl rfl rfl rfl
    have haccount : w₁.account = w.account := by
      funext d
      by_cases hd : d = c
      · simp [w₁, World.account, hd]
      · simp [w₁, World.account, hd]
    have hforum : w₁.forum = w.forum := World.forum_frame (w := { w with now := e.now }) hframe haccount rfl
    have hrequest : w₁.request env sv c p = w.request env sv c p := by
      have htoken : ∀ t, (w₁.clientAt t).token = (w.clientAt t).token := congrFun (congrArg Registry.token hframe.registry)
      have hconnection : (w₁.clientAt c).connection = (w.clientAt c).connection :=
        congrFun (congrArg Registry.connection hframe.registry) c
      unfold World.request
      rw [hconnection]
      simp only [htoken]
    rw [← hforum, ← hrequest]
    exact hcourse.turn ((hw.chore (.clock e.now)).frame hframe) hc

theorem World.chore_turn (hw : WF env w) {e : Event} (hchore : e.act.isChore) :
    Forum.Turn polity w.forum .chore (w.step env e).forum := by
  have hw' : WF env { w with now := e.now } := hw.chore (.clock e.now)
  rcases World.step_course hw e with hr | ⟨k, msg, sv, c, p, hact, -⟩ | ⟨hact, -⟩
  · have hchores := Routines.chores hw' hr
    exact .chores hchores
  · rw [hact] at hchore
    exact hchore.elim
  · cases hact with
    | inl hact =>
      rw [hact] at hchore
      exact hchore.elim
    | inr hact =>
      rw [hact] at hchore
      exact hchore.elim

theorem World.step_turn (hw : WF env w) (e : Event) :
    ∃ cause, w.Causes env e cause ∧ Forum.Turn polity w.forum cause (w.step env e).forum := by
  obtain ⟨now, act⟩ := e
  cases act with
  | message k msg sv => exact World.message_turn hw rfl
  | connected | closed | failed | tick => exact ⟨.chore, trivial, World.chore_turn hw trivial⟩
  | save =>
    have hsaved : World.forum { w with now := now, disk := Server.serialize { w with now := now } } = w.forum.save :=
      World.save_forum (w := { w with now := now }) hw.linked
    refine ⟨.save, rfl, ?_⟩
    rw [World.step_save, hsaved]
    exact .save
  | restart =>
    have hforum : (World.restart { w with now := now }).forum = w.forum.restart :=
      World.restart_forum (hw.chore (.clock now))
    refine ⟨.restart, rfl, ?_⟩
    rw [World.step_restart, hforum]
    exact .restart

end

/-- In a run nobody with a right over the room of the name sends a packet, and the server is not started again. -/
structure Unruled (env : Env) (before : List Event) (name : Bytes) (es : List Event) : Prop where
  running : ∀ pre e post, es = pre ++ e :: post → e.act ≠ .restart
  strangers : ∀ pre e post, es = pre ++ e :: post → ∀ k msg sv, e.act = .message k msg sv →
    let w := run env (before ++ pre)
    ∀ c ∈ w.manager.clients, (w.clientAt c).connection = some k → ∀ r ∈ w.rooms, (w.roomAt r).name = name →
      ¬ (w.roomAt r).law.Moderates (w.clientAt c).uid

def senders (env : Env) (before es : List Event) : Set ClientPtr :=
  {c | ∃ pre e post k msg sv, es = pre ++ e :: post ∧ e.act = .message k msg sv ∧
    ((run env (before ++ pre)).clientAt c).connection = some k}

theorem Unruled.initial {env : Env} {before es : List Event} {name : Bytes} {e : Event}
    (h : Unruled env before name (es ++ [e])) : Unruled env before name es := by
  refine ⟨fun pre e' post he => ?_, fun pre e' post he => ?_⟩
  · exact h.running pre e' (post ++ [e]) (by rw [he, List.append_assoc, List.cons_append])
  · exact h.strangers pre e' (post ++ [e]) (by rw [he, List.append_assoc, List.cons_append])

theorem senders_subset {env : Env} {before es : List Event} {e : Event} :
    senders env before es ⊆ senders env before (es ++ [e]) := by
  rintro c ⟨pre, e', post, k, msg, sv, he, hact, hk⟩
  exact ⟨pre, e', post ++ [e], k, msg, sv, by rw [he, List.append_assoc, List.cons_append], hact, hk⟩

theorem Unruled.keeps {env : Env} {before es : List Event} {name : Bytes} {l : Law}
    (h : Unruled env before name es) (hlaw : (run env before).forum.room name = some l) :
    Forum.Keeps name (senders env before es) (run env before).forum (run env (before ++ es)).forum := by
  induction es using List.reverseRecOn with
  | nil =>
    rw [List.append_nil]
    exact .refl _ _ _
  | append_singleton es e ih =>
    have hbefore := (ih h.initial).mono (senders_subset (e := e))
    refine hbefore.trans ?_
    have hlast : run env (before ++ (es ++ [e])) = (run env (before ++ es)).step env e := by
      rw [← List.append_assoc, run_append]
      rfl
    rw [hlast]
    have hw := wf_run env (before ++ es)
    obtain ⟨cause, hcause, hturn⟩ := World.step_turn hw e
    refine hturn.keeps polity_ranked (hbefore.room.trans hlaw) (fun q hq => ?_) fun hrestart => ?_
    · subst hq
      obtain ⟨k, msg, sv, c, p, hact, hc, hk, -, rfl⟩ := hcause
      refine ⟨?_, es, e, [], k, msg, sv, rfl, hact, hk⟩
      intro s l' hs hl'
      have hs' : some _ = some s := (World.session_of_mem hc).symm.trans hs
      obtain ⟨r, hr, hname, rfl⟩ := (World.law_iff hw.linked).mp hl'
      cases Option.some.inj hs'
      exact h.strangers es e [] rfl k msg sv hact c hc hk r hr hname
    · subst hrestart
      exact h.running es e [] rfl hcause

/-- While nobody with a right over a room sends a packet, the room stays, with its owner, its moderators and its ban
lists, and every client in it that sends nothing and is not lost is still in it, whatever all the others do. -/
theorem run_sovereign (env : Env) (before es : List Event) (r : RoomPtr) (hr : r ∈ (run env before).rooms)
    (h : Unruled env before ((run env before).roomAt r).name es) :
    let w := run env before
    let w' := run env (before ++ es)
    (∃ s ∈ w'.rooms, (w'.roomAt s).name = (w.roomAt r).name ∧ (w'.roomAt s).law = (w.roomAt r).law) ∧
      ∀ c, r ∈ (w.clientAt c).rooms → c ∉ senders env before es → c ∈ w'.manager.clients →
        ∃ s ∈ (w'.clientAt c).rooms, (w'.roomAt s).name = (w.roomAt r).name := by
  intro w w'
  have hw : WF env w := wf_run env before
  have hw' : WF env w' := wf_run env (before ++ es)
  have hlaw : w.forum.room (w.roomAt r).name = some (w.roomAt r).law := World.law_of_mem hw.linked hr
  have hkeeps := h.keeps hlaw
  refine ⟨(World.law_iff hw'.linked).mp (hkeeps.room.trans hlaw), fun c hc hidle hstays => ?_⟩
  have hregistered : c ∈ w.manager.clients := hw.linked.registered_of_joined hc
  have hsession : w'.forum.session c ≠ none := by
    rw [World.session_of_mem hstays]
    exact Option.some_ne_none _
  exact hkeeps.seats c (hw.indexed.fresh c hregistered) hidle ⟨r, hc, rfl⟩ hsession

def Sample.revolt : Event := sends 7 2 (line (utf8 "/kick bob"))

theorem run_sovereign_revolt :
    let w := run Sample.surroundings Sample.room
    let w' := run Sample.surroundings (Sample.room ++ [Sample.revolt])
    (∃ s ∈ w'.rooms, (w'.roomAt s).name = (w.roomAt ⟨0⟩).name ∧ (w'.roomAt s).law = (w.roomAt ⟨0⟩).law) ∧
      ∃ s ∈ (w'.clientAt ⟨0⟩).rooms, (w'.roomAt s).name = (w.roomAt ⟨0⟩).name := by
  have hone : ∀ pre e post, [Sample.revolt] = pre ++ e :: post → pre = [] ∧ e = Sample.revolt := by
    intro pre e post he
    cases pre with
    | nil => exact ⟨rfl, (List.cons.inj he).1.symm⟩
    | cons e' pre => exact absurd (List.cons.inj he).2 (by simp)
  have hstrange : ∀ c ∈ (run Sample.surroundings Sample.room).manager.clients,
      ((run Sample.surroundings Sample.room).clientAt c).connection = some ⟨2⟩ →
      ∀ r ∈ (run Sample.surroundings Sample.room).rooms.elems,
        ¬ ((run Sample.surroundings Sample.room).roomAt r).law.Moderates
          ((run Sample.surroundings Sample.room).clientAt c).uid := by decide +kernel
  have hunruled : Unruled Sample.surroundings Sample.room
      ((run Sample.surroundings Sample.room).roomAt ⟨0⟩).name [Sample.revolt] := by
    refine ⟨fun pre e post he => ?_, fun pre e post he k msg sv hact => ?_⟩
    · rw [(hone pre e post he).2]
      exact nofun
    · obtain ⟨rfl, rfl⟩ := hone pre e post he
      cases hact
      rw [List.append_nil]
      intro w c hc hk r hr _
      exact hstrange c hc hk r hr
  obtain ⟨hroom, hseats⟩ := run_sovereign Sample.surroundings Sample.room [Sample.revolt] ⟨0⟩
    (IterSet.mem_elems.mp (by decide +kernel)) hunruled
  refine ⟨hroom, hseats ⟨0⟩ (IterSet.mem_elems.mp (by decide +kernel)) ?_ (by decide +kernel)⟩
  rintro ⟨pre, e, post, k, msg, sv, he, hact, hk⟩
  obtain ⟨rfl, rfl⟩ := hone pre e post he
  cases hact
  rw [List.append_nil] at hk
  exact absurd hk (by decide +kernel)

end WsChat
