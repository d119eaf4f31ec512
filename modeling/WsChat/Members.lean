import WsChat.Tables

/-! What holds among the members of one room: distinct ids, distinct nicks, and a status
that says where the member is. -/
namespace WsChat
open Lib Relation ClientsManager

def Status.Present (stat : Status) : Prop := stat = .online ∨ stat = .away ∨ stat = .orphan

/-- Every stored profile is kept under its own account. -/
def Room.Filed (rm : Room) : Prop := ∀ uid info, rm.membersInfo.lookup uid = some info → info.userId = uid

theorem World.storedInfo_filed {w : World} {m : MemberPtr} {rm : Room} (h : rm.Filed) (uid : UInt32)
    (info : MemberInfo) (hi : (w.storedInfo m rm).lookup uid = some info) : info.userId = uid := by
  unfold World.storedInfo at hi
  dsimp only at hi
  split at hi
  · exact h uid info hi
  · by_cases hu : uid = (w.clientAt (w.memberAt m).client).uid
    · subst hu
      rw [AList.lookup_insert] at hi
      cases hi
      rfl
    · rw [AList.lookup_insert_ne hu] at hi
      exact h uid info hi

def Wire.Speech : Wire → Prop
  | .packet (.message _) => True
  | _ => False

theorem Wire.Plain.not_speech {S : Bytes → Prop} {x : Wire} (h : x.Plain S) : ¬ x.Speech := by
  cases x with
  | raw => exact id
  | packet p => cases p <;> first | exact h.elim | exact id

/-- Members only go, those that stay change in nothing but their status, and nobody speaks. -/
structure Thins (w w' : World) : Prop where
  members : ∀ r, ∀ m ∈ (w'.roomAt r).members, m ∈ (w.roomAt r).members
  member : ∀ m, ∃ stat seen, w'.memberAt m = { w.memberAt m with status := stat, lastSeenTime := seen } ∧
    (stat = (w.memberAt m).status ∨ stat.Present)
  room : ∀ r, (w'.roomAt r).name = (w.roomAt r).name ∧ (w'.roomAt r).ownerId = (w.roomAt r).ownerId ∧
    (w'.roomAt r).moderators = (w.roomAt r).moderators ∧
    (w'.roomAt r).bannedNicks = (w.roomAt r).bannedNicks ∧
    (w'.roomAt r).bannedIps = (w.roomAt r).bannedIps ∧
    (w'.roomAt r).bannedUids = (w.roomAt r).bannedUids
  uid : ∀ c, (w'.clientAt c).uid = (w.clientAt c).uid
  log : ∀ r, (w'.roomAt r).history = (w.roomAt r).history ∧
    (w'.roomAt r).nextMessageId = (w.roomAt r).nextMessageId
  filed : ∀ r, (w.roomAt r).Filed → (w'.roomAt r).Filed
  still : ∃ out, w'.sent = w.sent ++ out ∧ ∀ x ∈ out, ¬ x.2.Speech

theorem still_mail {w : World} {c : ClientPtr} {x : Wire} (h : ¬ x.Speech) :
    ∀ y ∈ w.mail c x, ¬ y.2.Speech := by
  intro y hy
  rw [(World.mem_mail.mp hy).2]
  exact h

theorem still_roomMail {w : World} {r : RoomPtr} {x : Wire} (h : ¬ x.Speech) :
    ∀ y ∈ w.roomMail r x, ¬ y.2.Speech := by
  intro y hy
  rw [(World.mem_roomMail.mp hy).2]
  exact h

theorem still_append {a b : List (ConnectionPtr × Wire)} (ha : ∀ x ∈ a, ¬ x.2.Speech)
    (hb : ∀ x ∈ b, ¬ x.2.Speech) : ∀ x ∈ a ++ b, ¬ x.2.Speech := fun x hx =>
  (List.mem_append.mp hx).elim (ha x) (hb x)

theorem still_offlineMail (w : World) (r : RoomPtr) (m : MemberPtr) :
    ∀ x ∈ w.offlineMail r m, ¬ x.2.Speech := by
  unfold World.offlineMail
  split
  · exact still_roomMail id
  · simp

theorem still_announcement (w : World) (m : MemberPtr) (stat : Status) :
    ∀ x ∈ w.announcement m stat, ¬ x.2.Speech := by
  unfold World.announcement
  dsimp only
  split
  · exact still_roomMail id
  · exact still_mail id

theorem still_welcomeMail (w : World) (c : ClientPtr) (r : RoomPtr) (m : MemberPtr)
    (sequenceId : Option UInt32) (loadHistory : Bool) :
    ∀ x ∈ w.welcomeMail c r m sequenceId loadHistory, ¬ x.2.Speech := by
  refine still_append (still_append (still_mail id) (still_mail id)) fun x hx => ?_
  split at hx
  · obtain ⟨s, -, hx⟩ := List.mem_flatMap.mp hx
    exact still_mail (x := .raw s) id x hx
  · cases hx

namespace Thins
variable {env : Env} {w w' w'' : World}

theorem refl (w : World) : Thins w w :=
  ⟨fun _ _ h => h, fun _ => ⟨_, _, rfl, .inl rfl⟩, fun _ => ⟨rfl, rfl, rfl, rfl, rfl, rfl⟩, fun _ => rfl,
    fun _ => ⟨rfl, rfl⟩, fun _ => id, ⟨[], by simp, by simp⟩⟩

theorem trans (h : Thins w w') (h' : Thins w' w'') : Thins w w'' where
  members := fun r m hm => h.members r m (h'.members r m hm)
  member := by
    intro m
    obtain ⟨stat, seen, he, hs⟩ := h.member m
    obtain ⟨stat', seen', he', hs'⟩ := h'.member m
    rw [he] at he' hs'
    exact ⟨stat', seen', he', hs'.elim (fun hq => hq ▸ hs) .inr⟩
  room := by
    intro r
    obtain ⟨h1, h2, h3, h4, h5, h6⟩ := h.room r
    obtain ⟨h1', h2', h3', h4', h5', h6'⟩ := h'.room r
    exact ⟨h1'.trans h1, h2'.trans h2, h3'.trans h3, h4'.trans h4, h5'.trans h5, h6'.trans h6⟩
  uid := fun c => (h'.uid c).trans (h.uid c)
  log := fun r => ⟨(h'.log r).1.trans (h.log r).1, (h'.log r).2.trans (h.log r).2⟩
  filed := fun r hr => h'.filed r (h.filed r hr)
  still := by
    obtain ⟨a, ha, hsa⟩ := h.still
    obtain ⟨b, hb, hsb⟩ := h'.still
    exact ⟨a ++ b, by rw [hb, ha, List.append_assoc], still_append hsa hsb⟩

theorem of_heap (hm : w'.memberAt = w.memberAt) (hr : w'.roomAt = w.roomAt)
    (hu : ∀ c, (w'.clientAt c).uid = (w.clientAt c).uid)
    (hs : ∃ out, w'.sent = w.sent ++ out ∧ ∀ x ∈ out, ¬ x.2.Speech) : Thins w w' where
  members := by rw [hr]; exact fun _ _ h => h
  member := by rw [hm]; exact fun _ => ⟨_, _, rfl, .inl rfl⟩
  room := by rw [hr]; exact fun _ => ⟨rfl, rfl, rfl, rfl, rfl, rfl⟩
  uid := hu
  log := by rw [hr]; exact fun _ => ⟨rfl, rfl⟩
  filed := by rw [hr]; exact fun _ => id
  still := hs

theorem of_books (hm : w'.memberAt = w.memberAt) (hr : w'.roomAt = w.roomAt) (hs : w'.sent = w.sent)
    (hu : ∀ c, (w'.clientAt c).uid = (w.clientAt c).uid) : Thins w w' :=
  of_heap hm hr hu ⟨[], by simpa using hs, by simp⟩

theorem emit (w : World) {out : List (ConnectionPtr × Wire)} (h : ∀ x ∈ out, ¬ x.2.Speech) :
    Thins w (w.emit out) := of_heap rfl rfl (fun _ => rfl) ⟨out, rfl, h⟩

theorem modifyClient (w : World) (c : ClientPtr) (f : Client → Client)
    (hu : (f (w.clientAt c)).uid = (w.clientAt c).uid) : Thins w (w.modifyClient c f) := by
  refine of_books rfl rfl rfl fun d => ?_
  by_cases hd : d = c
  · subst hd; simpa using hu
  · simp [hd]

theorem setStatus (w : World) (m : MemberPtr) (stat : Status) (hs : stat.Present) :
    Thins w (Member.setStatus w m stat) where
  members := fun _ _ h => h
  member := by
    intro n
    by_cases hn : n = m
    · subst hn
      exact ⟨stat, _, by simp [Member.setStatus]; rfl, .inr hs⟩
    · exact ⟨_, (w.memberAt n).lastSeenTime, by simp [Member.setStatus, hn], .inl rfl⟩
  room := fun _ => ⟨rfl, rfl, rfl, rfl, rfl, rfl⟩
  uid := fun _ => rfl
  log := fun _ => ⟨rfl, rfl⟩
  filed := fun _ => id
  still := ⟨[], (List.append_nil _).symm, by simp⟩

theorem foldl {α : Type*} {f : World → α → World} (h : ∀ w a, Thins w (f w a)) (l : List α)
    (w : World) : Thins w (l.foldl f w) := by
  induction l generalizing w with
  | nil => exact refl w
  | cons a l ih => exact (h w a).trans (ih _)

theorem erase (w : World) (r : RoomPtr) (m : MemberPtr) (f : Room → AList (fun _ : UInt32 => MemberInfo))
    (hf : (w.roomAt r).Filed → ∀ uid info, (f (w.roomAt r)).lookup uid = some info → info.userId = uid) :
    Thins w (w.modifyRoom r fun rm => { rm with membersInfo := f rm, members := rm.members.erase m }) where
  members := by
    intro s n hn
    by_cases hs : s = r
    · subst hs
      simp only [World.modifyRoom_roomAt, Function.update_self, IterSet.mem_erase] at hn
      exact hn.2
    · simpa [hs] using hn
  member := fun _ => ⟨_, _, rfl, .inl rfl⟩
  room := by
    intro s
    by_cases hs : s = r <;> simp [hs]
  uid := fun _ => rfl
  log := by
    intro s
    by_cases hs : s = r <;> simp [hs]
  filed := by
    intro s hfiled
    by_cases hs : s = r
    · subst hs
      simpa [Room.Filed] using hf hfiled
    · simpa [hs] using hfiled
  still := ⟨[], (List.append_nil _).symm, by simp⟩

theorem removeMember (w : World) (r : RoomPtr) (c : ClientPtr) : Thins w (Room.removeMember env w r c) := by
  cases h : Room.findMemberByClient w r c with
  | none =>
    rw [Room.removeMember_none h]
    exact of_books rfl rfl rfl fun _ => rfl
  | some m =>
    rw [Room.removeMember_eq h]
    refine (emit w (still_offlineMail w r m)).trans (erase _ r m _ fun hfiled => ?_)
    exact World.storedInfo_filed (w := w) (m := m) hfiled

theorem leaveRoom (w : World) (c : ClientPtr) (r : RoomPtr) : Thins w (Client.leaveRoom env w c r) := by
  unfold Client.leaveRoom
  split
  · exact (modifyClient w c _ rfl).trans (removeMember _ r c)
  · exact refl w

theorem kickMember (w : World) (r : RoomPtr) (m : MemberPtr) : Thins w (Room.kickMember env w r m) := by
  rw [Room.kickMember_eq]
  have hsent := still_append (still_offlineMail w r m)
    (still_mail (w := w) (c := (w.memberAt m).client) (x := .packet (.leave { target := (w.roomAt r).name })) id)
  exact ((modifyClient w _ _ rfl).trans (emit _ hsent)).trans
    (erase _ r m (fun rm => rm.membersInfo) fun hfiled => hfiled)

theorem onDisconnectRoom (c : ClientPtr) (w : World) (r : RoomPtr) :
    Thins w (Client.onDisconnectRoom env c w r) := by
  unfold Client.onDisconnectRoom
  split
  · exact of_books rfl rfl rfl fun _ => rfl
  · dsimp only
    have hstat := setStatus w ‹MemberPtr› .orphan (.inr (.inr rfl))
    split
    · rw [Room.sendPacketToAll_status]
      exact hstat.trans (emit _ (still_roomMail id))
    · exact hstat

theorem onReviveRoom (c : ClientPtr) (w : World) (r : RoomPtr) :
    Thins w (Client.onReviveRoom env c w r) := by
  unfold Client.onReviveRoom
  split
  · exact of_books rfl rfl rfl fun _ => rfl
  · simp only [Client.sendPacket_eq, foldl_sendRawData]
    have hstat := setStatus w ‹MemberPtr› .online (.inl rfl)
    have hgreet : ∀ (w : World) (p : PacketJoin) (q : PacketOnlineList) (l : List Bytes), Thins w
        (((w.emit (w.mail c (.packet (.join p)))).emit (w.mail c (.packet (.onlineList q)))).emit
          (l.flatMap fun s => w.mail c (.raw s))) := by
      intro w p q l
      have hjoin : Thins w (w.emit (w.mail c (.packet (.join p)))) := emit w (still_mail id)
      refine (hjoin.trans (emit _ (still_mail id))).trans (emit _ fun x hx => ?_)
      obtain ⟨s, -, hx⟩ := List.mem_flatMap.mp hx
      exact still_mail (x := .raw s) id x hx
    split
    · rw [Room.sendPacketToAll_status]
      exact (hstat.trans (hgreet _ _ _ _)).trans (emit _ (still_roomMail id))
    · exact hstat.trans (hgreet _ _ _ _)

theorem setConnection (w : World) (c : ClientPtr) (conn : Option ConnectionPtr) :
    Thins w (Client.setConnection env w c conn) := modifyClient w c _ rfl

theorem decrementForIp (w : World) (ip : Bytes) (field : Field) :
    Thins w (decrementForIp w ip field) := by
  obtain ⟨h1, h2, h3, -⟩ := decrementForIp_heap w ip field
  refine of_books h2 h3 ?_ fun c => by rw [h1]
  unfold ClientsManager.decrementForIp
  dsimp only
  split <;> split <;> rfl

theorem onRemove (w : World) (c : ClientPtr) : Thins w (Client.onRemove env w c) := by
  unfold Client.onRemove
  exact ((foldl (fun w r => removeMember w r c) _ w).trans (modifyClient _ c _ rfl)).trans
    (setConnection _ c none)

theorem setManager (w : World) (manager : ClientsManager) : Thins w { w with manager := manager } :=
  of_books rfl rfl rfl fun _ => rfl

theorem countOut (w : World) (c : ClientPtr) : Thins w (countOut w c) := by
  unfold ClientsManager.countOut eraseConnection
  cases hk : (w.clientAt c).connection with
  | none => exact refl w
  | some k =>
    cases hlook : (w.manager.connectionToClient.lookup k).isSome <;> simp only [hlook]
    · exact setManager w _
    · exact (setManager w _).trans (decrementForIp _ _ _)

theorem removeFromClients (w : World) (c : ClientPtr) : Thins w (removeFromClients w c).1 := by
  unfold ClientsManager.removeFromClients
  split <;> exact of_books rfl rfl rfl fun _ => rfl

theorem remove (w : World) (c : ClientPtr) : Thins w (remove env w c) := by
  rw [ClientsManager.remove_eq]
  have hout := (countOut w c).trans (removeFromClients _ c)
  generalize ClientsManager.removeFromClients (ClientsManager.countOut w c) c = stage at hout ⊢
  obtain ⟨w₁, found⟩ := stage
  cases found
  · exact hout.trans (onRemove _ c)
  · exact (hout.trans (decrementForIp _ _ _)).trans (onRemove _ c)

theorem makeOrphan (w : World) (c : ClientPtr) : Thins w (makeOrphan env w c) := by
  unfold ClientsManager.makeOrphan eraseConnection
  cases hk : (w.clientAt c).connection with
  | none => exact refl w
  | some k =>
    cases hlook : (w.manager.connectionToClient.lookup k).isSome <;> simp only [hlook]
    · exact setManager w _
    · have hdec : Thins w (ClientsManager.decrementForIp { w with manager := { w.manager with
          connectionToClient := w.manager.connectionToClient.erase k } } (w.clientAt c).lastClientIP
          .connections) := (setManager w _).trans (decrementForIp _ _ _)
      exact hdec.trans ((setConnection _ c none).trans (foldl (onDisconnectRoom c) _ _))

theorem reviveClient (w : World) (c t : ClientPtr) : Thins w (Server.reviveClient env w c t).1 := by
  have hmanager : Thins w (ClientsManager.reviveClient env w c t).1 := by
    cases hk : (w.clientAt c).connection with
    | none =>
      simp only [ClientsManager.reviveClient, hk]
      exact refl w
    | some k =>
      rw [ClientsManager.reviveClient_eq hk]
      dsimp only
      have hout := ((countOut w t).trans (decrementForIp _ (w.clientAt t).lastClientIP .clients)).trans
        (removeFromClients _ c)
      generalize (ClientsManager.removeFromClients _ c).1 = w₁ at hout ⊢
      have hrem : Thins w (Client.onRemove env w₁ c) := hout.trans (onRemove w₁ c)
      generalize Client.onRemove env w₁ c = w₂ at hrem ⊢
      have hmap : Thins w { w₂ with manager := { w₂.manager with
          connectionToClient := w₂.manager.connectionToClient.insert k t } } := hrem.trans (setManager w₂ _)
      exact hmap.trans ((setConnection _ t (some k)).trans
        ((modifyClient _ t _ rfl).trans (foldl (onReviveRoom t) _ _)))
  have hmark : Thins (ClientsManager.reviveClient env w c t).1 (Server.reviveClient env w c t).1 := by
    unfold Server.reviveClient Server.closeConnection
    dsimp only
    split
    · dsimp only
      split <;> exact of_books rfl rfl rfl fun _ => rfl
    · exact refl _
  exact hmanager.trans hmark

theorem removeRoom (w : World) (name : Bytes) : Thins w (Server.removeRoom env w name) := by
  unfold Server.removeRoom
  split
  · rename_i r _
    have herase : Thins w { w with rooms := w.rooms.erase r } := of_books rfl rfl rfl fun _ => rfl
    refine herase.trans (foldl ?_ _ _)
    intro w m
    unfold Room.onDestroyMember
    rw [Member.sendPacket_eq]
    exact (leaveRoom w _ _).trans (emit _ (still_mail id))
  · exact refl w

end Thins

/-- Among the members of one room ids and nicks are distinct, no id is zero, and every status
says where the member is. -/
structure Seated (w : World) : Prop where
  ids : ∀ r, ∀ m ∈ (w.roomAt r).members, ∀ n ∈ (w.roomAt r).members,
    (w.memberAt m).id = (w.memberAt n).id → m = n
  nicks : ∀ r, ∀ m ∈ (w.roomAt r).members, ∀ n ∈ (w.roomAt r).members,
    (w.memberAt m).nick = (w.memberAt n).nick → (w.memberAt m).nick ≠ [] → m = n
  numbered : ∀ r, ∀ m ∈ (w.roomAt r).members, (w.memberAt m).id ≠ 0
  present : ∀ r, ∀ m ∈ (w.roomAt r).members, (w.memberAt m).status.Present

variable {env : Env} {c : ClientPtr} {w₀ w w' : World} {r : RoomPtr} {m : MemberPtr}

theorem Seated.shift (h : Seated w)
    (hsub : ∀ r, ∀ m ∈ (w'.roomAt r).members, m ∈ (w.roomAt r).members)
    (hmem : ∀ r, ∀ m ∈ (w'.roomAt r).members, (w'.memberAt m).id = (w.memberAt m).id ∧
      (w'.memberAt m).nick = (w.memberAt m).nick ∧
      ((w'.memberAt m).status = (w.memberAt m).status ∨ (w'.memberAt m).status.Present)) : Seated w' where
  ids := by
    intro r m hm n hn he
    rw [(hmem r m hm).1, (hmem r n hn).1] at he
    exact h.ids r m (hsub r m hm) n (hsub r n hn) he
  nicks := by
    intro r m hm n hn he hne
    rw [(hmem r m hm).2.1, (hmem r n hn).2.1] at he
    rw [(hmem r m hm).2.1] at hne
    exact h.nicks r m (hsub r m hm) n (hsub r n hn) he hne
  numbered := by
    intro r m hm
    rw [(hmem r m hm).1]
    exact h.numbered r m (hsub r m hm)
  present := by
    intro r m hm
    rcases (hmem r m hm).2.2 with he | hs
    · exact he ▸ h.present r m (hsub r m hm)
    · exact hs

theorem Seated.thin (h : Seated w) (ht : Thins w w') : Seated w' := by
  refine h.shift ht.members fun r m _ => ?_
  obtain ⟨stat, seen, he, hs⟩ := ht.member m
  rw [he]
  exact ⟨rfl, rfl, hs⟩

theorem Seated.congr (h : Seated w) (hm : w'.memberAt = w.memberAt)
    (hr : ∀ r, (w'.roomAt r).members = (w.roomAt r).members) : Seated w' :=
  h.shift (fun r _ hn => hr r ▸ hn) fun _ _ _ => by simp [hm]

theorem Room.nick_free {nick : Bytes} (h : Room.findMemberByNick w r nick = none) (hne : nick ≠ []) :
    ∀ m ∈ (w.roomAt r).members, (w.memberAt m).nick ≠ nick := by
  rintro m hm rfl
  have := List.find?_eq_none.mp h m hm
  simp [Member.hasNick, hne] at this

theorem Room.genNextMemberIdLoop_free {fuel : Nat} {start id : UInt32}
    (h : Room.genNextMemberIdLoop w r fuel start = some id) :
    id ≠ 0 ∧ Room.findMemberById w r id = none := by
  induction fuel generalizing start with
  | zero => cases h
  | succ fuel ih =>
    unfold Room.genNextMemberIdLoop at h
    split at h
    · exact ih h
    · rename_i hfree
      cases h
      simpa using hfree

theorem Room.id_free {id : UInt32} (h : Room.genNextMemberId w r = some id) :
    ∀ m ∈ (w.roomAt r).members, (w.memberAt m).id ≠ id := by
  rintro m hm rfl
  have := List.find?_eq_none.mp (Room.genNextMemberIdLoop_free h).2 m hm
  simp at this

theorem Seated.restyle (h : Seated w) (n : MemberPtr) (girl : Bool) (color : Bytes) :
    Seated (w.modifyMember n fun mem => { mem with girl := girl, color := color }) := by
  refine h.shift (fun _ _ hm => hm) fun r m _ => ?_
  by_cases hm : m = n
  · subst hm; simp
  · simp [hm]

theorem Seated.rename (h : Seated w) (hl : w.membership.Linked) {nick : Bytes} (hm : m ∈ (w.roomAt r).members)
    (hfree : nick = [] ∨ Room.findMemberByNick w r nick = none) :
    Seated (w.modifyMember m fun mem => { mem with nick := nick }) := by
  have hother : ∀ s, ∀ n ∈ (w.roomAt s).members, n ≠ m → (w.memberAt n).nick = nick → nick = [] ∨ s ≠ r := by
    intro s n hn _ he
    rcases hfree with hnil | hnone
    · exact .inl hnil
    · by_cases hnil : nick = []
      · exact .inl hnil
      · refine .inr ?_
        rintro rfl
        exact Room.nick_free hnone hnil n hn he
  have hroom : ∀ s, m ∈ (w.roomAt s).members → s = r := fun s hs =>
    (hl.home s m hs).symm.trans (hl.home r m hm)
  refine ⟨fun s n hn n' hn' he => ?_, fun s n hn n' hn' he hne => ?_, fun s n hn => ?_, fun s n hn => ?_⟩
  · refine h.ids s n hn n' hn' ?_
    by_cases h₁ : n = m <;> by_cases h₂ : n' = m <;> simp_all
  · by_cases h₁ : n = m
    · subst h₁
      by_cases h₂ : n' = n
      · exact h₂.symm
      · simp only [World.modifyMember_memberAt, Function.update_self, Function.update_of_ne h₂] at he hne
        exact absurd (hroom s hn) ((hother s n' hn' h₂ he.symm).resolve_left hne)
    · by_cases h₂ : n' = m
      · subst h₂
        simp only [World.modifyMember_memberAt, Function.update_self, Function.update_of_ne h₁] at he hne
        exact absurd (hroom s hn') ((hother s n hn h₁ he).resolve_left (he ▸ hne))
      · simp only [World.modifyMember_memberAt, Function.update_of_ne h₁, Function.update_of_ne h₂] at he hne
        exact h.nicks s n hn n' hn' he hne
  · by_cases h₁ : n = m
    · subst h₁
      simpa using h.numbered s n hn
    · simpa [h₁] using h.numbered s n hn
  · by_cases h₁ : n = m
    · subst h₁
      simpa using h.present s n hn
    · simpa [h₁] using h.present s n hn

theorem Seated.issue (h : Seated w) (hl : w.membership.Linked) (c : ClientPtr) (r : RoomPtr) (id : UInt32) :
    Seated (w.issue c r id) := by
  have hmembers : ∀ s, ((w.issue c r id).roomAt s).members = (w.roomAt s).members := by
    intro s
    by_cases hs : s = r <;> simp [World.issue, hs]
  refine h.shift (fun s m hm => hmembers s ▸ hm) fun s m hm => ?_
  have hne : m ≠ ⟨w.nextMember⟩ := hl.ne_of_mem w.not_issued m (hmembers s ▸ hm)
  simp [World.issue, hne]

theorem World.mem_enter {c : ClientPtr} {id : UInt32} {s : RoomPtr} {n : MemberPtr} :
    n ∈ ((w.enter c r id).roomAt s).members ↔
      n ∈ (w.roomAt s).members ∨ (s = r ∧ n = ⟨w.nextMember⟩) := by
  by_cases hs : s = r
  · subst hs
    simp [World.enter, or_comm]
  · simp [World.enter, hs]

theorem World.memberAt_enter_new (w : World) (c : ClientPtr) (r : RoomPtr) (id : UInt32) :
    (w.enter c r id).memberAt ⟨w.nextMember⟩ =
      { id := id, client := c, room := r, lastSeenTime := w.now, status := .online } :=
  Function.update_self ..

theorem World.memberAt_enter_old (hl : w.membership.Linked) {c : ClientPtr} {id : UInt32} {s : RoomPtr}
    {n : MemberPtr} (hn : n ∈ (w.roomAt s).members) : (w.enter c r id).memberAt n = w.memberAt n :=
  Function.update_of_ne (hl.ne_of_mem w.not_issued n hn) _ _

theorem Seated.enter (h : Seated w) (hl : w.membership.Linked) (c : ClientPtr) {id : UInt32}
    (hid : Room.genNextMemberId w r = some id) : Seated (w.enter c r id) := by
  have hfree := Room.id_free hid
  have hold : ∀ s, ∀ n ∈ (w.roomAt s).members, (w.enter c r id).memberAt n = w.memberAt n :=
    fun s n hn => World.memberAt_enter_old hl hn
  have hnew := w.memberAt_enter_new c r id
  refine ⟨fun s n hn n' hn' he => ?_, fun s n hn n' hn' he hne => ?_, fun s n hn => ?_, fun s n hn => ?_⟩
  · rcases World.mem_enter.mp hn with hn | ⟨rfl, rfl⟩ <;>
      rcases World.mem_enter.mp hn' with hn' | ⟨hs, rfl⟩
    · rw [hold s n hn, hold s n' hn'] at he
      exact h.ids s n hn n' hn' he
    · rw [hold s n hn, hnew] at he
      exact absurd he (hfree n (hs ▸ hn))
    · rw [hold s n' hn', hnew] at he
      exact absurd he.symm (hfree n' hn')
    · rfl
  · rcases World.mem_enter.mp hn with hn | ⟨rfl, rfl⟩ <;>
      rcases World.mem_enter.mp hn' with hn' | ⟨hs, rfl⟩
    · rw [hold s n hn, hold s n' hn'] at he
      rw [hold s n hn] at hne
      exact h.nicks s n hn n' hn' he hne
    · rw [hold s n hn, hnew] at he
      rw [hold s n hn] at hne
      exact absurd he hne
    · rw [hnew] at hne
      exact absurd rfl hne
    · rfl
  · rcases World.mem_enter.mp hn with hn | ⟨rfl, rfl⟩
    · rw [hold s n hn]
      exact h.numbered s n hn
    · rw [hnew]
      exact (Room.genNextMemberIdLoop_free hid).1
  · rcases World.mem_enter.mp hn with hn | ⟨rfl, rfl⟩
    · rw [hold s n hn]
      exact h.present s n hn
    · rw [hnew]
      exact .inl rfl

theorem Seated.quiet (h : Seated w) (hl : w.membership.Linked) {S : Bytes → Prop} (hq : Quiet env c w₀ S w w') :
    Seated w' := by
  cases hq with
  | tell out hplain => exact h.thin (.emit w fun x hx => (hplain x hx).not_speech)
  | list => exact h.thin (.emit w (still_mail id))
  | touch => exact h.congr rfl fun _ => rfl
  | identify => exact h.congr rfl fun _ => rfl
  | say r =>
    rw [Room.say_eq]
    exact h.congr rfl fun s => by by_cases hs : s = r <;> simp [hs]
  | whisper => exact h.congr rfl fun _ => rfl
  | presence r m stat _ hm hn hs =>
    refine h.thin ((Thins.setStatus w m _ ?_).trans (.emit _ (still_roomMail id)))
    rcases hs with rfl | rfl
    · exact .inr (.inl rfl)
    · exact .inl rfl
  | typing => exact h.thin (.emit w (still_roomMail id))
  | restyle r m girl color stat =>
    rw [Member.announce_eq]
    exact (h.restyle m girl color).thin (.emit _ (still_announcement _ m stat))
  | dress _ m girl color => exact h.restyle m girl color
  | rename r m nick _ hm _ hfree => exact (h.rename hl hm hfree).thin (.emit _ (still_roomMail id))
  | ban r => exact h.congr rfl fun s => by by_cases hs : s = r <;> simp [hs]
  | appoint r => exact h.congr rfl fun s => by by_cases hs : s = r <;> simp [hs]

theorem Seated.move (h : Seated w) (hw : WF env w) {S : Bytes → Prop} (hm : Move env c w₀ S w w') : Seated w' := by
  cases hm with
  | quiet hq => exact h.quiet hw.linked hq
  | hang => exact h.congr rfl fun _ => rfl
  | issue r id => exact h.issue hw.linked c r id
  | enter r id _ _ _ _ _ _ hid => exact 
    (h.enter hw.linked c hid).thin (.emit _ (still_welcomeMail _ c r _ _ _))
  | leave r => exact h.thin (.leaveRoom w c r)
  | kick r m => exact h.thin (.kickMember w r m)
  | banKick r m nick =>
    have hban : Seated (w.modifyRoom r fun rm => { rm with bannedNicks := rm.bannedNicks.insert nick }) :=
      h.congr rfl fun s => by by_cases hs : s = r <;> simp [hs]
    exact hban.thin (.kickMember _ r m)
  | create name =>
    have hroom : ∀ s, (((w.found name).modifyRoom ⟨w.nextRoom⟩ fun rm =>
        { rm with ownerId := (w.clientAt c).uid }).roomAt s).members =
        if s = ⟨w.nextRoom⟩ then ∅ else (w.roomAt s).members := by
      intro s
      by_cases hs : s = ⟨w.nextRoom⟩ <;> simp [World.found, hs]
    refine h.shift (fun s m hm => ?_) fun _ _ _ => ⟨rfl, rfl, .inl rfl⟩
    rw [hroom] at hm
    split at hm
    · exact absurd hm (IterSet.not_mem_empty m)
    · exact hm
  | raze r name => exact h.thin (.removeRoom w name)
  | revive t k p _ _ _ _ _ hp =>
    have hplain : ∀ x ∈ [(k, Wire.packet p)], ¬ x.2.Speech := by
      simpa using hp.not_speech
    exact (h.thin (.emit w hplain)).thin (.reviveClient _ c t)

theorem ClientsManager.connect_heap (env : Env) (w : World) (k : ConnectionPtr) (draws : List Token) :
    (connect env w k draws).memberAt = w.memberAt ∧ (connect env w k draws).roomAt = w.roomAt := by
  unfold connect
  split <;> exact ⟨rfl, rfl⟩

theorem World.restart_members (h : WF env w) (r : RoomPtr) : (w.restart.roomAt r).members = ∅ := by
  obtain ⟨ms, hms, he⟩ := World.restart_evolves h.saved
  have hclients : w.restart.registry.clients = [] := by rw [he.registry]; rfl
  have hl : w.restart.membership.Linked := he.membership ▸ hms
  refine IterSet.ext (List.eq_nil_iff_forall_not_mem.mpr fun m hm => ?_)
  have hc : (w.restart.memberAt m).client ∈ w.restart.registry.clients := hl.registered r m hm
  rw [hclients] at hc
  cases hc

theorem Seated.opening (h : Seated w) (hw : WF env w) (k : ConnectionPtr) (draws : List Token) :
    Seated (Server.onOpen env { w with opened := k :: w.opened } k draws) := by
  have harrival : Seated (w.arrival env k) := h.congr rfl fun _ => rfl
  have hconnect : ∀ w₁, Seated w₁ → Seated (connect env w₁ k draws) := fun w₁ h₁ =>
    h₁.congr (ClientsManager.connect_heap env w₁ k draws).1
      fun _ => by rw [(ClientsManager.connect_heap env w₁ k draws).2]
  rcases Server.onOpen_cases env hw k draws with ⟨-, he⟩ | ⟨-, ⟨-, he⟩ | ⟨c, -, -, -, -, he⟩⟩
  · rw [he]
    exact harrival.congr rfl fun _ => rfl
  · rw [he]
    exact hconnect _ harrival
  · rw [he]
    exact hconnect _ (harrival.thin (.remove _ c))

theorem Seated.routine (h : Seated w) (hw : WF env w) (hr : Routine env w w') : Seated w' := by
  cases hr with
  | clock => exact h.congr rfl fun _ => rfl
  | opening k draws => exact h.opening hw k draws
  | ping c =>
    rw [Client.sendPacket_eq]
    exact h.thin (.emit w (still_mail id))
  | mark => exact h.congr rfl fun _ => rfl
  | orphan c => exact h.thin (.makeOrphan w c)
  | drop c => exact h.thin (.remove w c)

theorem Seated.chore (h : Seated w) (hw : WF env w) (ht : Chore env w w') : Seated w' := by
  cases ht with
  | routine hr => exact h.routine hw hr
  | save => exact h.congr rfl fun _ => rfl
  | restart =>
    have hnone : ∀ r, ∀ m, m ∉ (w.restart.roomAt r).members := fun r m hm => by
      rw [World.restart_members hw r] at hm
      exact IterSet.not_mem_empty m hm
    exact ⟨fun r m hm => absurd hm (hnone r m), fun r m hm => absurd hm (hnone r m),
      fun r m hm => absurd hm (hnone r m), fun r m hm => absurd hm (hnone r m)⟩

theorem Seated.init (env : Env) : Seated (World.boot env) := by
  have hnone : ∀ r m, m ∉ ((World.boot env).roomAt r).members := fun _ m => IterSet.not_mem_empty m
  exact ⟨fun r m hm => absurd hm (hnone r m), fun r m hm => absurd hm (hnone r m),
    fun r m hm => absurd hm (hnone r m), fun r m hm => absurd hm (hnone r m)⟩

theorem Seated.step (h : Seated w) (hw : WF env w) (e : Event) : Seated (w.step env e) :=
  step_invariant (fun _ _ _ _ hw h hm => h.move hw hm) (fun _ _ hw h hc => h.chore hw hc) hw h e

theorem seated_run (env : Env) (es : List Event) : Seated (run env es) :=
  run_invariant (Seated.init env) (fun _ _ _ _ hw h hm => h.move hw hm) (fun _ _ hw h hc => h.chore hw hc) es

/-- In every run the holder of a nick is the only one, and the search finds it in whatever
order the members are visited. -/
theorem run_nicks_unique (env : Env) (es : List Event) :
    let w := run env es
    (∀ r, ∀ m ∈ (w.roomAt r).members, ∀ n ∈ (w.roomAt r).members,
      (w.memberAt m).nick = (w.memberAt n).nick → (w.memberAt m).nick ≠ [] → m = n) ∧
    (∀ r, ∀ m ∈ (w.roomAt r).members, (w.memberAt m).nick ≠ [] →
      Room.findMemberByNick w r (w.memberAt m).nick = some m) ∧
    ∀ r nick, ∀ order : List MemberPtr, order.Perm (w.roomAt r).members.elems →
      order.find? (fun m => (w.memberAt m).hasNick && (w.memberAt m).nick == nick) =
        Room.findMemberByNick w r nick := by
  intro w
  have h : Seated w := seated_run env es
  have hfound : ∀ r, ∀ m ∈ (w.roomAt r).members, (w.memberAt m).nick ≠ [] →
      ∀ order : List MemberPtr, order.Perm (w.roomAt r).members.elems →
      order.find? (fun n => (w.memberAt n).hasNick && (w.memberAt n).nick == (w.memberAt m).nick) = some m := by
    intro r m hm hne order horder
    refine IterSet.find?_unique hm (by simp [Member.hasNick, hne]) ?_ horder
    intro n hn htest
    simp only [Bool.and_eq_true, beq_iff_eq] at htest
    exact (h.nicks r m hm n hn htest.2.symm hne).symm
  refine ⟨h.nicks, fun r m hm hne => hfound r m hm hne _ (List.Perm.refl _), ?_⟩
  intro r nick order horder
  cases hfind : Room.findMemberByNick w r nick with
  | some m =>
    have hm : m ∈ (w.roomAt r).members := List.mem_of_find?_eq_some hfind
    have htest := List.find?_some hfind
    simp only [Bool.and_eq_true, beq_iff_eq] at htest
    obtain ⟨hhas, rfl⟩ := htest
    exact hfound r m hm (by simpa [Member.hasNick] using hhas) order horder
  | none =>
    refine List.find?_eq_none.mpr fun m hm => ?_
    exact List.find?_eq_none.mp hfind m (horder.mem_iff.mp hm)

end WsChat
