import WsChat.Handlers

/-! Runs of the server as sequences of packets and chores, and the invariant of the two views
over every run. -/
namespace WsChat
open Lib Relation ClientsManager

inductive Routine (env : Env) (w : World) : World → Prop
  | clock (now : Int) : Routine env w { w with now := now }
  | opening (k : ConnectionPtr) (draws : List Token) (hk : k ∉ w.opened) :
      Routine env w (Server.onOpen env { w with opened := k :: w.opened } k draws)
  | ping (c : ClientPtr) : Routine env w (Client.sendPacket w c .ping)
  | mark (k : ConnectionPtr) : Routine env w (Server.closeConnection w k)
  | orphan (c : ClientPtr) (hc : c ∈ w.manager.clients) : Routine env w (makeOrphan env w c)
  | drop (c : ClientPtr) (hc : c ∈ w.manager.clients) : Routine env w (remove env w c)

/-- What happens to the server other than that it processes a packet. -/
inductive Chore (env : Env) (w : World) : World → Prop
  | routine {w' : World} (h : Routine env w w') : Chore env w w'
  | save : Chore env w { w with disk := Server.serialize w }
  | restart : Chore env w w.restart

theorem Chore.clock {env : Env} {w : World} (now : Int) : Chore env w { w with now := now } := .routine (.clock now)

namespace Registry
variable {env : Env} {g : Registry}

/-- `operator[]` makes an entry that counts nothing. -/
def touch (g : Registry) (ip : Bytes) : Registry :=
  { g with manager := { g.manager with
      countersFromIp := g.manager.countersFromIp.insert ip (g.counterAt ip) } }

theorem counterAt_touch (g : Registry) (ip ip' : Bytes) : (g.touch ip).counterAt ip' = g.counterAt ip' := by
  unfold touch counterAt
  dsimp only
  by_cases h : ip' = ip
  · subst h
    simp
  · rw [AList.lookup_insert_ne h]

theorem Indexed.touch (h : g.Indexed env) (ip : Bytes) : (g.touch ip).Indexed env :=
  ⟨h.nodup, h.connIff, h.tokenIff, h.fresh, h.opened, h.address, h.tokens⟩

theorem Counted.touch (h : g.Counted) (ip : Bytes) : (g.touch ip).Counted :=
  ⟨fun ip' => (congrArg Counter.clients (counterAt_touch g ip ip')).trans (h.clients ip'),
    fun ip' => (congrArg Counter.connections (counterAt_touch g ip ip')).trans (h.connections ip'),
    h.unclamped⟩

theorem Listed.touch {ip ip' : Bytes} (h : g.Listed ip') (hip : ip' = ip → 0 < g.clientsFrom ip) :
    (g.touch ip).Listed ip' := by
  unfold Listed at h ⊢
  by_cases hi : ip' = ip
  · subst hi
    refine iff_of_true ?_ (hip rfl)
    simp [Registry.touch]
  · have hlook : (g.touch ip).manager.countersFromIp.lookup ip' = g.manager.countersFromIp.lookup ip' :=
      AList.lookup_insert_ne hi
    rw [hlook]
    exact h

theorem clientsFrom_forget {c : ClientPtr} (hc : c ∈ g.clients) :
    (g.forget c).clientsFrom (g.lastClientIP c) + 1 = g.clientsFrom (g.lastClientIP c) := by
  have herase := countP_erase_add (fun x => decide (g.lastClientIP x = g.lastClientIP c)) hc
  rw [if_pos (by simp)] at herase
  exact herase

theorem liveFrom_forget_le (c : ClientPtr) (ip : Bytes) : (g.forget c).liveFrom ip ≤ g.liveFrom ip :=
  List.erase_sublist.countP_le

end Registry

section
variable {env : Env} {w w' : World} {k : ConnectionPtr} {draws : List Token}

theorem WF.connect (hi : w.registry.Indexed env) (hco : w.registry.Counted) (hlim : w.registry.Limited 5 5)
    (hl : w.membership.Linked) (hs : w.nullDeref = false) (hsaved : w.Saved)
    (hlist : w.hung = false → ∀ ip, ip ≠ env.realIp k → w.registry.Listed ip)
    (hk : ∀ c ∈ w.manager.clients, (w.clientAt c).connection ≠ some k) (hko : k ∈ w.opened)
    (hcl : (counterAt w (env.realIp k)).clients < 5)
    (hcn : (counterAt w (env.realIp k)).connections < 5) : WF env (connect env w k draws) := by
  rcases ClientsManager.connect_evolves env w k draws with
    ⟨token, hne, htoken, he⟩ | he
  · have hco' := hco.register (k := k) (t := token) hi
    refine ⟨he.registry ▸ hi.register hk hko hne htoken, he.registry ▸ hco',
      he.registry ▸ hlim.register hi hco hcl hcn, ?_, he.membership ▸ hl.enroll ?_,
      he.nullDeref.trans hs, ?_⟩
    · rw [he.registry, he.hung]
      exact fun hh ip => Registry.Listed.register (hlist hh ip) hco' hco
    · exact fun hc => Nat.lt_irrefl _ (hi.fresh _ hc)
    · unfold World.Saved
      rw [he.disk]
      exact hsaved
  · rw [he]
    exact ⟨hi, hco, hlim, (fun hh => by cases hh), hl, hs, hsaved⟩

theorem Server.isOrphanOf_iff {w : World} {ip : Bytes} {c : ClientPtr} :
    Server.isOrphanOf w ip c ↔ (w.clientAt c).connection = none ∧ (w.clientAt c).lastClientIP = ip := by
  simp [Server.isOrphanOf]

theorem Server.evictOrphan_cases (env : Env) (hco : w.registry.Counted) {ip : Bytes}
    (hcn : (counterAt w ip).connections < 5) :
    ((counterAt w ip).clients < 5 ∧ Server.evictOrphan env w ip (counterAt w ip) = w) ∨
    ∃ c ∈ w.manager.clients, findFirstClient w (Server.isOrphanOf w ip) = some c ∧
      (w.clientAt c).connection = none ∧ (w.clientAt c).lastClientIP = ip ∧
      Server.evictOrphan env w ip (counterAt w ip) = remove env w c := by
  unfold Server.evictOrphan Server.maxClientsFromIp
  split
  · rename_i hfull
    have hlt : (w.registry.counterAt ip).connections < (w.registry.counterAt ip).clients :=
      lt_of_lt_of_le hcn hfull
    obtain ⟨d, hd, hip, hk⟩ := hco.exists_orphan hlt
    cases hfind : findFirstClient w (Server.isOrphanOf w ip) with
    | none => exact absurd (Server.isOrphanOf_iff.mpr ⟨hk, hip⟩) (List.find?_eq_none.mp hfind d hd)
    | some c =>
      obtain ⟨hck, hcip⟩ := Server.isOrphanOf_iff.mp (List.find?_some hfind)
      exact .inr ⟨c, List.mem_of_find?_eq_some hfind, rfl, hck, hcip, rfl⟩
  · rename_i hroom
    exact .inl ⟨by omega, rfl⟩

def World.arrival (env : Env) (w : World) (k : ConnectionPtr) : World :=
  (getCounterFromIp { w with opened := k :: w.opened } (env.realIp k)).2

theorem World.arrival_indexed (h : WF env w) : (w.arrival env k).registry.Indexed env := by
  have hopen : ({ w.registry with opened := k :: w.opened } : Registry).Indexed env :=
    ⟨h.indexed.nodup, h.indexed.connIff, h.indexed.tokenIff, h.indexed.fresh,
      fun c hc k' hk' => List.mem_cons_of_mem k (h.indexed.opened c hc k' hk'), h.indexed.address,
      h.indexed.tokens⟩
  exact hopen.touch (env.realIp k)

theorem World.arrival_counted (h : WF env w) : (w.arrival env k).registry.Counted :=
  Registry.Counted.touch (g := { w.registry with opened := k :: w.opened })
    ⟨h.counted.clients, h.counted.connections, h.counted.unclamped⟩ (env.realIp k)

theorem World.arrival_listed (h : WF env w) (hh : (w.arrival env k).hung = false) (ip : Bytes)
    (hip : ip = env.realIp k → 0 < (w.arrival env k).registry.clientsFrom (env.realIp k)) :
    (w.arrival env k).registry.Listed ip :=
  Registry.Listed.touch (g := { w.registry with opened := k :: w.opened }) (h.listed hh ip) hip

theorem World.arrival_new (h : WF env w) (hk : k ∉ w.opened) :
    ∀ c ∈ (w.arrival env k).manager.clients, ((w.arrival env k).clientAt c).connection ≠ some k :=
  fun c hc hck => hk (h.indexed.opened c hc k hck)

/-- A connection is refused, or gets a client, for which an orphan may have to go. -/
theorem Server.onOpen_cases (env : Env) {w : World} (h : WF env w) (k : ConnectionPtr)
    (draws : List Token) :
    (5 ≤ (counterAt (w.arrival env k) (env.realIp k)).connections ∧
      Server.onOpen env { w with opened := k :: w.opened } k draws =
        Server.closeConnection (w.arrival env k) k) ∨
    (counterAt (w.arrival env k) (env.realIp k)).connections < 5 ∧
      (((counterAt (w.arrival env k) (env.realIp k)).clients < 5 ∧
        Server.onOpen env { w with opened := k :: w.opened } k draws =
          connect env (w.arrival env k) k draws) ∨
      ∃ c ∈ (w.arrival env k).manager.clients,
        findFirstClient (w.arrival env k) (Server.isOrphanOf (w.arrival env k) (env.realIp k)) = some c ∧
        ((w.arrival env k).clientAt c).connection = none ∧
        ((w.arrival env k).clientAt c).lastClientIP = env.realIp k ∧
        Server.onOpen env { w with opened := k :: w.opened } k draws =
          connect env (remove env (w.arrival env k) c) k draws) := by
  have hcounter : (getCounterFromIp { w with opened := k :: w.opened } (env.realIp k)).1 =
      counterAt (w.arrival env k) (env.realIp k) :=
    (Registry.counterAt_touch w.registry (env.realIp k) (env.realIp k)).symm
  have hunfold : Server.onOpen env { w with opened := k :: w.opened } k draws =
      if Server.maxConnectionsFromIp ≤ (counterAt (w.arrival env k) (env.realIp k)).connections
      then Server.closeConnection (w.arrival env k) k
      else connect env (Server.evictOrphan env (w.arrival env k) (env.realIp k)
        (counterAt (w.arrival env k) (env.realIp k))) k draws := by
    rw [← hcounter]
    rfl
  have hco := World.arrival_counted (k := k) h
  rw [hunfold]
  generalize w.arrival env k = w₁ at hco ⊢
  by_cases hfull : Server.maxConnectionsFromIp ≤ (counterAt w₁ (env.realIp k)).connections
  · rw [if_pos hfull]
    exact .inl ⟨hfull, rfl⟩
  · rw [if_neg hfull]
    have hcn : (counterAt w₁ (env.realIp k)).connections < 5 := by
      simpa [Server.maxConnectionsFromIp] using hfull
    refine .inr ⟨hcn, ?_⟩
    rcases Server.evictOrphan_cases env hco hcn with ⟨hcl, he⟩ | ⟨c, hc, hfind, hck, hcip, he⟩
    · exact .inl ⟨hcl, by rw [he]⟩
    · exact .inr ⟨c, hc, hfind, hck, hcip, by rw [he]⟩

theorem ClientsManager.remove_orphan_evolves {c : ClientPtr} (hi : w.registry.Indexed env)
    (hl : w.membership.Linked) (hc : c ∈ w.manager.clients) (hck : (w.clientAt c).connection = none) :
    Evolves w (w.registry.forget c) (w.membership.withdraw c) (remove env w c) := by
  have hev := ClientsManager.remove_evolves hi hl hc
  rw [Registry.unlink_orphan (g := w.registry) hck] at hev
  exact hev

theorem WF.opening (h : WF env w) (hk : k ∉ w.opened) :
    WF env (Server.onOpen env { w with opened := k :: w.opened } k draws) := by
  have hi := World.arrival_indexed (k := k) h
  have hco := World.arrival_counted (k := k) h
  have hlist := World.arrival_listed (k := k) h
  have hknew := World.arrival_new h hk
  have hlim : (w.arrival env k).registry.Limited 5 5 := h.limited
  have hl : (w.arrival env k).membership.Linked := h.linked
  have hs : (w.arrival env k).nullDeref = false := h.sound
  have hsaved : (w.arrival env k).Saved := h.saved
  have hko : k ∈ (w.arrival env k).opened := List.mem_cons_self
  have hcases := Server.onOpen_cases env h k draws
  generalize w.arrival env k = w₁ at *
  have hclients := hco.clients (env.realIp k)
  have hconns := hco.connections (env.realIp k)
  have hle := Registry.liveFrom_le w₁.registry (env.realIp k)
  rcases hcases with ⟨hfull, he⟩ | ⟨hcn, ⟨hcl, he⟩ | ⟨c, hc, -, hck, hcip, he⟩⟩
  · -- refused: the address has clients, so its entry was there
    rw [he]
    refine WF.frame ?_ (Server.closeConnection_frame w₁ k)
    have hpos : 0 < w₁.registry.clientsFrom (env.realIp k) := by
      change 5 ≤ (w₁.registry.counterAt (env.realIp k)).connections at hfull
      omega
    exact ⟨hi, hco, hlim, fun hh ip => hlist hh ip fun _ => hpos, hl, hs, hsaved⟩
  · rw [he]
    exact WF.connect hi hco hlim hl hs hsaved (fun hh ip hip => hlist hh ip fun he => absurd he hip)
      hknew hko hcl hcn
  · have hev := ClientsManager.remove_orphan_evolves hi hl hc hck
    rw [he]
    generalize remove env w₁ c = w₂ at hev ⊢
    have hco₂ := hco.forget (c := c) hc hck
    have hpos : 0 < w₁.registry.clientsFrom (env.realIp k) := hcip ▸ Registry.clientsFrom_pos hc
    have hclients₂ := hco₂.clients (env.realIp k)
    have hconns₂ := hco₂.connections (env.realIp k)
    have hone := Registry.clientsFrom_forget (g := w₁.registry) hc
    have hlive := Registry.liveFrom_forget_le (g := w₁.registry) c (env.realIp k)
    have hfive := (hlim (env.realIp k)).1
    rw [show w₁.registry.lastClientIP c = env.realIp k from hcip] at hone
    change (w₁.registry.counterAt (env.realIp k)).connections < 5 at hcn
    rw [← hev.registry] at hclients₂ hconns₂ hone hlive hco₂
    refine WF.connect (hev.registry ▸ hi.forget hc hck) hco₂ (hev.registry ▸ hlim.forget hco hc hck)
      (hev.membership ▸ hl.withdraw) (hev.nullDeref.trans hs) ?_ ?_ ?_ ?_ ?_ ?_
    · unfold World.Saved
      rw [hev.disk]
      exact hsaved
    · rw [hev.hung, hev.registry]
      exact fun hh ip _ => (hlist hh ip fun _ => hpos).forget hc (hco.forget hc hck)
    · have hreg := hev.registry
      intro d hd hdk
      have hd₁ : d ∈ w₁.manager.clients := by
        have hsub : w₂.registry.clients = w₁.registry.clients.erase c := by rw [hreg]; rfl
        exact List.mem_of_mem_erase (hsub ▸ hd : d ∈ w₁.registry.clients.erase c)
      have hdk₁ : w₁.registry.connection d = some k := by
        have hsame : w₂.registry.connection = w₁.registry.connection := by rw [hreg]; rfl
        rw [← hsame]
        exact hdk
      exact hknew d hd₁ hdk₁
    · have hsame : w₂.registry.opened = w₁.registry.opened := by rw [hev.registry]; rfl
      exact (congrArg (k ∈ ·) hsame).mpr hko
    · change (w₂.registry.counterAt (env.realIp k)).clients < 5
      omega
    · change (w₂.registry.counterAt (env.realIp k)).connections < 5
      omega

end

theorem Except.bind_ok {ε α β : Type} {x : Except ε α} {f : α → Except ε β} {b : β}
    (h : (x >>= f) = .ok b) : ∃ a, x = .ok a ∧ f a = .ok b := by
  cases x with
  | error e => cases h
  | ok a => exact ⟨a, rfl, h⟩

theorem Room.get_name_serialize (rm : Room) : rm.serialize.get (utf8 "name") = .ok (.str rm.name) := by
  have hkey : (utf8 "name" == utf8 "owner_id") = false := by decide +kernel
  rw [Room.serialize, Json.get_cons_ne hkey, Json.get_cons_self]

theorem Room.deserialize_spec {val : Json} {rm : Room} (h : Room.deserialize val = .ok rm) :
    (val.get (utf8 "name") >>= Json.asString) = .ok rm.name ∧ rm.members = ∅ := by
  unfold Room.deserialize at h
  obtain ⟨owner, -, h⟩ := Except.bind_ok h
  obtain ⟨ownerId, -, h⟩ := Except.bind_ok h
  obtain ⟨j, hj, h⟩ := Except.bind_ok h
  obtain ⟨name, hname, h⟩ := Except.bind_ok h
  iterate 14 obtain ⟨_, -, h⟩ := Except.bind_ok h
  cases h
  rw [hj]
  exact ⟨hname, rfl⟩

section
variable {env : Env} {w w' : World}

theorem Server.deserializeRoom_evolves {val : Json} (h : Server.deserializeRoom w val = .ok w') :
    ∃ name, (val.get (utf8 "name") >>= Json.asString) = .ok name ∧
      Evolves w w.registry (w.membership.found ⟨w.nextRoom⟩ name) w' := by
  unfold Server.deserializeRoom at h
  obtain ⟨rm, hrm, h⟩ := Except.bind_ok h
  obtain ⟨hname, hempty⟩ := Room.deserialize_spec hrm
  cases h
  refine ⟨rm.name, hname, rfl, ?_, rfl, rfl, rfl⟩
  unfold World.membership Membership.found
  congr 1
  · ext s
    simp
  · funext s
    by_cases hs : s = ⟨w.nextRoom⟩
    · subst hs
      ext n
      simp [hempty]
    · simp [hs]
  · funext s
    by_cases hs : s = ⟨w.nextRoom⟩ <;> simp [hs]
  · exact RoomPtr.below_succ w.nextRoom

theorem Server.deserializeRooms_evolves {l : List Room} (hl : w.membership.Linked)
    (hnd : (l.map Room.name).Nodup) (hnew : ∀ r ∈ w.rooms, ∀ rm ∈ l, (w.roomAt r).name ≠ rm.name) :
    ∃ ms : Membership ClientPtr RoomPtr MemberPtr Bytes, ms.Linked ∧
      Evolves w w.registry ms (Server.deserializeRooms (l.map Room.serialize) w) := by
  induction l generalizing w with
  | nil => exact ⟨w.membership, hl, Frame.refl w⟩
  | cons rm l ih =>
    rw [List.map_cons] at hnd
    obtain ⟨hrm, hnd⟩ := List.nodup_cons.mp hnd
    rw [List.map_cons, Server.deserializeRooms]
    cases hload : Server.deserializeRoom w rm.serialize with
    | error e => exact ⟨w.membership, hl, Frame.refl w⟩
    | ok w₁ =>
      obtain ⟨name, hname, he⟩ := Server.deserializeRoom_evolves hload
      rw [Room.get_name_serialize] at hname
      cases hname
      have hl₁ : w₁.membership.Linked := by
        rw [he.membership]
        refine hl.found (fun hr => Nat.lt_irrefl _ hr) ?_
        exact fun s hs => hnew s hs rm List.mem_cons_self
      have hnew₁ : ∀ r ∈ w₁.rooms, ∀ rm' ∈ l, (w₁.roomAt r).name ≠ rm'.name := by
        have hms := he.membership
        intro r hr rm' hrm'
        have hr' : r ∈ w₁.membership.rooms := hr
        have hn' : w₁.membership.name r = (w₁.roomAt r).name := rfl
        rw [← hn', hms]
        rw [hms] at hr'
        rcases hr' with rfl | hr'
        · simp only [Membership.found, Function.update_self]
          exact fun he => hrm (List.mem_map.mpr ⟨rm', hrm', he.symm⟩)
        · have hne : r ≠ ⟨w.nextRoom⟩ := by
            rintro rfl
            exact Nat.lt_irrefl _ (hl.built _ hr')
          simp only [Membership.found, Function.update_of_ne hne]
          exact hnew r hr' rm' (List.mem_cons_of_mem rm hrm')
      obtain ⟨ms, hms, he₁⟩ := ih hl₁ hnd hnew₁
      refine ⟨ms, hms, ?_⟩
      have hreg := he.registry
      exact ⟨he₁.registry.trans hreg, he₁.membership, he₁.nullDeref.trans he.nullDeref,
        he₁.hung.trans he.hung, he₁.disk.trans he.disk⟩

theorem World.fresh_linked (w : World) : w.fresh.membership.Linked := by
  have hrooms : (default : Client).rooms = ∅ := rfl
  have hmembers : (default : Room).members = ∅ := rfl
  refine ⟨?_, ?_, ?_, ?_, ?_, ?_, ?_, ?_⟩ <;> simp [World.fresh, World.membership, hrooms, hmembers]

theorem WF.fresh (hclamped : w.clamped = false) (hs : w.nullDeref = false) (hsaved : w.Saved) :
    WF env w.fresh where
  indexed := by
    refine ⟨List.nodup_nil, ?_, ?_, ?_, ?_, ?_, ?_⟩ <;>
      simp [World.fresh, World.registry, Registry.clients]
  counted := by
    refine ⟨fun ip => ?_, fun ip => ?_, hclamped⟩ <;>
      simp [World.fresh, World.registry, Registry.counterAt, Registry.clientsFrom, Registry.liveFrom,
        Registry.clients]
  limited := fun ip => by
    simp [World.fresh, World.registry, Registry.liveFrom, Registry.clientsFrom, Registry.clients]
  listed := fun _ ip => by
    simp [World.fresh, World.registry, Registry.Listed, Registry.clientsFrom, Registry.clients]
  linked := w.fresh_linked
  sound := hs
  saved := hsaved

theorem WF.init : WF env (World.boot env) :=
  WF.fresh (w := World.boot env) rfl rfl (.inl rfl)

theorem Server.get_rooms_serialize (w : World) :
    ((Server.serialize w).get (utf8 "rooms")).toOption.map Json.items =
      some ((w.rooms.elems.map w.roomAt).map Room.serialize) := by
  unfold Server.serialize
  cases h : w.rooms.elems <;> simp [Except.toOption]

theorem World.restart_evolves (hsaved : w.Saved) :
    ∃ ms : Membership ClientPtr RoomPtr MemberPtr Bytes, ms.Linked ∧
      Evolves w.fresh w.fresh.registry ms w.restart := by
  have hl := w.fresh_linked
  unfold World.restart Server.deserialize
  rcases hsaved with hd | ⟨w₀, hd, hnames⟩
  · rw [hd]
    exact ⟨_, hl, Frame.refl _⟩
  · have hrooms := Server.get_rooms_serialize w₀
    rw [hd]
    cases hget : (Server.serialize w₀).get (utf8 "rooms") with
    | error e => exact ⟨_, hl, Frame.refl _⟩
    | ok rooms =>
      rw [hget] at hrooms
      have hitems : rooms.items = (w₀.rooms.elems.map w₀.roomAt).map Room.serialize := by
        simpa [Except.toOption] using hrooms
      dsimp only
      rw [hitems]
      refine Server.deserializeRooms_evolves (w := { w.fresh with rooms := ∅ }) hl ?_ ?_
      · rw [List.map_map]
        exact List.Nodup.map_on (fun r hr s hs he => hnames r hr s hs he) w₀.rooms.nodup
      · intro r hr
        exact absurd hr (IterSet.not_mem_empty r)

theorem WF.restart (h : WF env w) : WF env w.restart := by
  have hf : WF env w.fresh := WF.fresh h.counted.unclamped h.sound h.saved
  obtain ⟨ms, hms, he⟩ := World.restart_evolves h.saved
  exact hf.relink he hms

theorem WF.routine (h : WF env w) (hr : Routine env w w') : WF env w' := by
  cases hr with
  | clock now => exact h.frame ⟨rfl, rfl, rfl, rfl, rfl⟩
  | opening k draws hk => exact h.opening hk
  | ping c =>
    rw [Client.sendPacket_eq]
    exact h.frame (Frame.emit w _)
  | mark k => exact h.frame (Server.closeConnection_frame w k)
  | orphan c hc => exact h.orphan hc
  | drop c hc => exact h.drop hc

theorem WF.chore (h : WF env w) (ht : Chore env w w') : WF env w' := by
  cases ht with
  | routine hr => exact h.routine hr
  | save =>
    refine { h with saved := .inr ⟨w, rfl, fun r hr s hs he => h.linked.names r hr s hs he⟩ }
  | restart => exact h.restart

abbrev Routines (env : Env) : World → World → Prop := ReflTransGen (Routine env)

theorem WF.routines (h : WF env w) (ht : Routines env w w') : WF env w' :=
  steps_preserve (fun _ _ hw hm => hw.routine hm) ht h

theorem ClientsManager.findClientByConnection_spec (h : WF env w) {k : ConnectionPtr} {c : ClientPtr}
    (hc : findClientByConnection w k = some c) :
    c ∈ w.manager.clients ∧ (w.clientAt c).connection = some k := (h.indexed.connIff k c).mp hc

theorem Client.onPacket_steps (h : WF env w) {c : ClientPtr} {k : ConnectionPtr}
    (hc : c ∈ w.manager.clients) (hk : (w.clientAt c).connection = some k) (sv : AuthServices)
    (msg : Option Json) : Steps env c w Anywhere w (Client.onPacket env sv w c msg) := by
  unfold Client.onPacket
  split
  · have htouch : Steps env c w Anywhere w (w.modifyClient c fun cli => { cli with lastPacketTime := w.now }) :=
      Deeds.steps (touch_deeds _ _ _ rfl)
    have hcalm : Calm w (w.modifyClient c fun cli => { cli with lastPacketTime := w.now }) :=
      (Calm.refl w).touch _ rfl rfl
    have hk' : ((w.modifyClient c fun cli => { cli with lastPacketTime := w.now }).clientAt c).connection =
        some k := by simpa using hk
    exact htouch.trans (Packet.process_steps (h.steps htouch) hcalm hc hk' sv _ (Packet.scope_anywhere _))
  · exact .refl

theorem Server.onMessage_read {k : ConnectionPtr} {c : ClientPtr} {obj : Json} {p : Packet}
    (hc : findClientByConnection w k = some c) (hp : Packet.read env.unset obj = .ok (some p)) (sv : AuthServices) :
    Server.onMessage env sv w k (some obj) =
      p.process env sv (w.modifyClient c fun cli => { cli with lastPacketTime := w.now }) c := by
  simp only [Server.onMessage, hc, Client.onPacket, Option.map_some, hp]

theorem Server.onMessage_steps (h : WF env w) (sv : AuthServices) (k : ConnectionPtr)
    (msg : Option Json) : ∃ c, Steps env c w Anywhere w (Server.onMessage env sv w k msg) := by
  unfold Server.onMessage
  cases hc : findClientByConnection w k with
  | none => exact ⟨⟨0⟩, .refl⟩
  | some c =>
    obtain ⟨hcl, hk⟩ := ClientsManager.findClientByConnection_spec h hc
    exact ⟨c, Client.onPacket_steps h hcl hk sv msg⟩

theorem ClientsManager.makeOrphanByConnection_routines (h : WF env w) (k : ConnectionPtr) :
    Routines env w (makeOrphanByConnection env w k) := by
  unfold makeOrphanByConnection
  cases hc : findClientByConnection w k with
  | none => exact .refl
  | some c => exact .single (.orphan c (ClientsManager.findClientByConnection_spec h hc).1)

theorem Server.onClose_routines (h : WF env w) (k : ConnectionPtr) (status : Int) :
    Routines env w (Server.onClose env w k status) := by
  unfold Server.onClose
  split
  · unfold removeByConnection
    cases hc : findClientByConnection w k with
    | none => exact .refl
    | some c => exact .single (.drop c (ClientsManager.findClientByConnection_spec h hc).1)
  · exact ClientsManager.makeOrphanByConnection_routines h k

theorem ClientsManager.makeOrphan_clients (h : WF env w) {c : ClientPtr} (hc : c ∈ w.manager.clients) :
    (makeOrphan env w c).manager.clients = w.manager.clients := by
  have hreg := (ClientsManager.makeOrphan_evolves h.indexed h.linked hc).registry
  have hcl : (makeOrphan env w c).registry.clients = (w.registry.unlink c).clients := by rw [hreg]
  exact hcl.trans (Registry.unlink_clients w.registry c)

theorem ClientsManager.remove_clients (h : WF env w) {c : ClientPtr} (hc : c ∈ w.manager.clients) :
    (remove env w c).manager.clients = w.manager.clients.erase c := by
  have hreg := (ClientsManager.remove_evolves h.indexed h.linked hc).registry
  have hcl : (remove env w c).registry.clients = ((w.registry.unlink c).forget c).clients := by rw [hreg]
  exact hcl.trans (congrArg (List.erase · c) (Registry.unlink_clients w.registry c))

theorem Server.tickClient_spec (h : WF env w) {c : ClientPtr} (hc : c ∈ w.manager.clients)
    (toKick : List ClientPtr) :
    Routines env w (Server.tickClient env (w, toKick) c).1 ∧
      (Server.tickClient env (w, toKick) c).1.manager.clients = w.manager.clients ∧
      ((Server.tickClient env (w, toKick) c).2 = toKick ∨
        (Server.tickClient env (w, toKick) c).2 = toKick ++ [c]) := by
  unfold Server.tickClient
  dsimp only
  split
  · exact ⟨.refl, rfl, .inr rfl⟩
  · split
    · cases (w.clientAt c).connection with
      | none => exact ⟨.refl, rfl, .inl rfl⟩
      | some k =>
        have hmark : Routines env w (Server.closeConnection w k) := .single (.mark k)
        have h₁ := h.routines hmark
        exact ⟨hmark.trans (.single (.orphan c hc)), ClientsManager.makeOrphan_clients h₁ hc, .inl rfl⟩
    · split
      · exact ⟨.single (.ping c), by rw [Client.sendPacket_eq]; rfl, .inl rfl⟩
      · exact ⟨.refl, rfl, .inl rfl⟩

theorem Server.tickClients_routines (l toKick : List ClientPtr) (h : WF env w)
    (hl : ∀ c ∈ toKick ++ l, c ∈ w.manager.clients) (hnd : (toKick ++ l).Nodup) :
    Routines env w (l.foldl (Server.tickClient env) (w, toKick)).1 ∧
      (l.foldl (Server.tickClient env) (w, toKick)).2.Nodup ∧
      ∀ c ∈ (l.foldl (Server.tickClient env) (w, toKick)).2,
        c ∈ (l.foldl (Server.tickClient env) (w, toKick)).1.manager.clients := by
  induction l generalizing w toKick with
  | nil =>
    rw [List.append_nil] at hl hnd
    exact ⟨.refl, hnd, hl⟩
  | cons c l ih =>
    have hc : c ∈ w.manager.clients := hl c (List.mem_append_right _ List.mem_cons_self)
    obtain ⟨hroutines, hclients, hkick⟩ := Server.tickClient_spec h hc toKick
    rw [List.foldl_cons]
    generalize Server.tickClient env (w, toKick) c = acc at hroutines hclients hkick ⊢
    obtain ⟨w₁, toKick₁⟩ := acc
    have h₁ := h.routines hroutines
    have hsub : (toKick₁ ++ l).Sublist (toKick ++ c :: l) := by
      rcases hkick with hkick | hkick
      · rw [show toKick₁ = toKick from hkick]
        exact List.Sublist.append_left (List.sublist_cons_self c l) toKick
      · rw [show toKick₁ = toKick ++ [c] from hkick, List.append_assoc]
        exact List.Sublist.refl _
    obtain ⟨hrest, hnd', hin⟩ := ih toKick₁ h₁
      (fun d hd => (congrArg (d ∈ ·) hclients).mpr (hl d (hsub.subset hd))) (hnd.sublist hsub)
    exact ⟨hroutines.trans hrest, hnd', hin⟩

theorem Server.kickOutdated_routines (h : WF env w) {c : ClientPtr} (hc : c ∈ w.manager.clients) :
    Routines env w (Server.kickOutdated env w c) ∧
      (Server.kickOutdated env w c).manager.clients = w.manager.clients.erase c := by
  unfold Server.kickOutdated
  cases (w.clientAt c).connection with
  | none => exact ⟨.single (.drop c hc), ClientsManager.remove_clients h hc⟩
  | some k =>
    have hmark : Routines env w (Server.closeConnection w k) := .single (.mark k)
    exact ⟨hmark.trans (.single (.drop c hc)), ClientsManager.remove_clients (h.routines hmark) hc⟩

theorem Server.kickAll_routines {l : List ClientPtr} (h : WF env w) (hl : ∀ c ∈ l, c ∈ w.manager.clients)
    (hnd : l.Nodup) : Routines env w (l.foldl (Server.kickOutdated env) w) := by
  induction l generalizing w with
  | nil => exact .refl
  | cons c l ih =>
    obtain ⟨hcl, hnd⟩ := List.nodup_cons.mp hnd
    obtain ⟨hroutines, hclients⟩ := Server.kickOutdated_routines h (hl c List.mem_cons_self)
    rw [List.foldl_cons]
    refine hroutines.trans (ih (h.routines hroutines) ?_ hnd)
    intro d hd
    have hnodup : w.manager.clients.Nodup := h.indexed.nodup
    rw [hclients, hnodup.mem_erase_iff]
    exact ⟨fun he => hcl (he ▸ hd), hl d (List.mem_cons_of_mem c hd)⟩

theorem Server.onTimer_routines (h : WF env w) : Routines env w (Server.onTimer env w) := by
  obtain ⟨hroutines, hnd, hin⟩ := Server.tickClients_routines w.manager.clients [] h (fun c hc => hc)
    h.indexed.nodup
  unfold Server.onTimer
  exact hroutines.trans (Server.kickAll_routines (h.routines hroutines) hin hnd)

theorem World.step_running (hh : w.hung = false) (e : Event) :
    w.step env e = World.handle env { w with now := e.now } e.act := by
  cases w
  cases hh
  rfl

/-- An event is a sequence of chores, or the moves of one packet. -/
theorem World.handle_cases (h : WF env w) (act : Act) :
    Routines env w (w.handle env act) ∨
      (∃ k msg sv, act = .message k msg sv) ∧ (∃ c, Steps env c w Anywhere w (w.handle env act)) ∨
      (act = .save ∨ act = .restart) ∧ Chore env w (w.handle env act) := by
  cases act with
  | connected k draws =>
    refine .inl ?_
    change Routines env w (if k ∈ w.opened then w
      else Server.onOpen env { w with opened := k :: w.opened } k draws)
    split
    · exact .refl
    · rename_i hk
      exact .single (.opening k draws hk)
  | message k msg sv => exact .inr (.inl ⟨⟨k, msg, sv, rfl⟩, Server.onMessage_steps h sv k msg⟩)
  | closed k status => exact .inl (Server.onClose_routines h k status)
  | failed k => exact .inl (ClientsManager.makeOrphanByConnection_routines h k)
  | tick => exact .inl (Server.onTimer_routines h)
  | save => exact .inr (.inr ⟨.inl rfl, .save⟩)
  | restart => exact .inr (.inr ⟨.inr rfl, .restart⟩)

theorem World.step_cases (h : WF env w) (e : Event) :
    Routines env { w with now := e.now } (w.step env e) ∨
      (∃ k msg sv, e.act = .message k msg sv) ∧
        (∃ c, Steps env c { w with now := e.now } Anywhere { w with now := e.now } (w.step env e)) ∨
      (e.act = .save ∨ e.act = .restart) ∧ Chore env { w with now := e.now } (w.step env e) := by
  have h' : WF env { w with now := e.now } := h.chore (.clock e.now)
  unfold World.step
  dsimp only
  split
  · exact World.handle_cases h' _
  · rename_i hact
    exact .inr (.inr ⟨.inl hact, .save⟩)
  · rename_i hact
    exact .inr (.inr ⟨.inr hact, .restart⟩)
  · exact .inl .refl

/-- What every move and every chore keeps an event keeps. -/
theorem step_invariant {P : World → Prop}
    (hmove : ∀ c w₀ w w', WF env w → P w → Move env c w₀ Anywhere w w' → P w')
    (hchore : ∀ w w', WF env w → P w → Chore env w w' → P w') (h : WF env w) (hp : P w) (e : Event) :
    P (w.step env e) := by
  have h' : WF env { w with now := e.now } := h.chore (.clock e.now)
  have hp' : P { w with now := e.now } := hchore _ _ h hp (.clock e.now)
  rcases World.step_cases h e with hs | ⟨-, c, hs⟩ | ⟨-, hs⟩
  · exact steps_preserve_under (fun _ _ hw hc => hw.routine hc)
      (fun _ _ hw hp hr => hchore _ _ hw hp (.routine hr)) hs h' hp'
  · exact steps_preserve_under (fun _ _ hw hm => hw.move hm) (hmove c _) hs h' hp'
  · exact hchore _ _ h' hp' hs

theorem WF.step (h : WF env w) (e : Event) : WF env (w.step env e) :=
  step_invariant (fun _ _ _ _ _ hw hm => hw.move hm) (fun _ _ _ hw hc => hw.chore hc) h h e

theorem wf_run (env : Env) (es : List Event) : WF env (run env es) :=
  foldl_invariant (P := WF env) (World.step env) (fun _ e h => h.step e) es WF.init

/-- A property of a start that every move and every chore keeps holds after every run. -/
theorem run_invariant {P : World → Prop} (hinit : P (World.boot env))
    (hmove : ∀ c w₀ w w', WF env w → P w → Move env c w₀ Anywhere w w' → P w')
    (hchore : ∀ w w', WF env w → P w → Chore env w w' → P w') (es : List Event) : P (run env es) :=
  (foldl_invariant (P := fun w => WF env w ∧ P w) (World.step env)
    (fun _ e h => ⟨h.1.step e, step_invariant hmove hchore h.1 h.2 e⟩) es ⟨WF.init, hinit⟩).2

end
end WsChat
