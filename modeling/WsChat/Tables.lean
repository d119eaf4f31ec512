import WsChat.Runs

/-! What the invariant of the two views says of every run: membership, the client registry,
the counters and the limits of an address. -/
namespace WsChat
open Lib Relation ClientsManager

/-- The rooms of the clients and the members of the rooms tell the same in every run, and no
lookup of a member that the code does not check fails. -/
theorem run_membership_consistent (env : Env) (es : List Event) :
    let w := run env es
    (∀ c ∈ w.manager.clients, ∀ r,
      (r ∈ (w.clientAt c).rooms ↔ ∃ m ∈ (w.roomAt r).members, (w.memberAt m).client = c) ∧
      (r ∈ (w.clientAt c).rooms → ∃! m, m ∈ (w.roomAt r).members ∧ (w.memberAt m).client = c)) ∧
    (∀ r, ∀ m ∈ (w.roomAt r).members, (w.memberAt m).client ∈ w.manager.clients) ∧
    (∀ c, ∀ r ∈ (w.clientAt c).rooms, r ∈ w.rooms) ∧
    (∀ r ∈ w.rooms, ∀ s ∈ w.rooms, (w.roomAt r).name = (w.roomAt s).name → r = s) ∧
    w.nullDeref = false := by
  intro w
  have h : WF env w := wf_run env es
  refine ⟨?_, h.linked.registered, fun c r hr => h.linked.listed_of_joined hr, h.linked.names, h.sound⟩
  intro c _ r
  refine ⟨h.linked.joinedIff c r, fun hr => ?_⟩
  obtain ⟨m, hm, hc⟩ := (h.linked.joinedIff c r).mp hr
  exact ⟨m, ⟨hm, hc⟩, fun n hn => h.linked.unique r n hn.1 m hm (hn.2.trans hc.symm)⟩

namespace Registry
variable {env : Env} {g : Registry} {c : ClientPtr} {k : ConnectionPtr}

theorem retired_unlink (hi : g.Indexed env) (hc : c ∈ g.clients) (hk : g.connection c = some k) :
    (g.unlink c).Retired k := by
  refine ⟨?_, ?_⟩
  · have hopened : (g.unlink c).opened = g.opened := by
      unfold Registry.unlink
      rw [hk]
      rfl
    rw [hopened]
    exact hi.opened c hc k hk
  · unfold Registry.unlink
    rw [hk]
    exact AList.lookup_erase _ _

end Registry

section
variable {env : Env} {w w' : World} {k : ConnectionPtr}

theorem retired_move {c : ClientPtr} {w₀ : World} {S : Bytes → Prop} (h : WF env w)
    (hk : w.registry.Retired k) (hm : Move env c w₀ S w w') : w'.registry.Retired k := by
  cases hm with
  | quiet hq => exact hq.frame.registry ▸ hk
  | hang => exact hk
  | issue r id => exact hk
  | enter r id sequenceId => exact (enter_evolves w c r id).registry.symm ▸ hk
  | leave r _ hr =>
    obtain ⟨m, -, -, he⟩ := Client.leaveRoom_evolves env h.linked hr
    exact he.registry.symm ▸ hk
  | kick r m => exact Room.kickMember_evolves.registry.symm ▸ hk
  | banKick r m nick => exact Room.kickMember_evolves.registry.symm ▸ hk
  | create name => exact (found_evolves w name).registry.symm ▸ hk
  | raze r name _ hr => exact (Server.removeRoom_evolves h.linked hr).registry.symm ▸ hk
  | revive t k' p _ hc ht hct hck =>
    have h' := h.frame (Frame.emit w [(k', .packet p)])
    have he := (ClientsManager.reviveClient_evolves h'.indexed h'.linked hc ht hct hck).then_frame
      (Server.reviveClient_frame _ c t)
    rw [he.registry]
    have hkc : (w.registry.unlink t).connection c = some k' := by
      rw [Registry.unlink_connection, Function.update_of_ne hct]
      exact hck
    have hc' : c ∈ (w.registry.unlink t).clients := (Registry.unlink_clients _ t).symm ▸ hc
    exact hk.unlink.adopt (h.indexed.unlink ht) hc' hkc

theorem retired_connect {k' : ConnectionPtr} {draws : List Token} (hk : w.registry.Retired k)
    (hne : k ≠ k') : (connect env w k' draws).registry.Retired k := by
  rcases ClientsManager.connect_evolves env w k' draws with ⟨token, -, -, he⟩ | he
  · exact he.registry.symm ▸ hk.register hne
  · rw [he]
    exact hk

theorem retired_opening {k' : ConnectionPtr} {draws : List Token} (h : WF env w)
    (hk : w.registry.Retired k) (hk' : k' ∉ w.opened) :
    (Server.onOpen env { w with opened := k' :: w.opened } k' draws).registry.Retired k := by
  have hne : k ≠ k' := by
    rintro rfl
    exact hk' hk.1
  have hk₁ : (w.arrival env k').registry.Retired k := ⟨List.mem_cons_of_mem k' hk.1, hk.2⟩
  rcases Server.onOpen_cases env h k' draws with ⟨-, he⟩ | ⟨-, ⟨-, he⟩ | ⟨c, hc, -, hck, -, he⟩⟩
  · rw [he]
    exact (Server.closeConnection_frame (w.arrival env k') k').registry.symm ▸ hk₁
  · rw [he]
    exact retired_connect hk₁ hne
  · rw [he]
    have hev := ClientsManager.remove_orphan_evolves (World.arrival_indexed h) h.linked hc hck
    exact retired_connect (hev.registry.symm ▸ hk₁.forget) hne

theorem retired_routine (h : WF env w) (hk : w.registry.Retired k) (hr : Routine env w w') :
    w'.registry.Retired k := by
  cases hr with
  | clock now => exact hk
  | opening k' draws hk' => exact retired_opening h hk hk'
  | ping c =>
    rw [Client.sendPacket_eq]
    exact hk
  | mark k' => exact hk
  | orphan c hc =>
    exact (ClientsManager.makeOrphan_evolves h.indexed h.linked hc).registry.symm ▸ hk.unlink
  | drop c hc =>
    exact (ClientsManager.remove_evolves h.indexed h.linked hc).registry.symm ▸ hk.unlink.forget

theorem retired_chore (h : WF env w) (hk : w.registry.Retired k) (ht : Chore env w w') :
    w'.registry.Retired k := by
  cases ht with
  | routine hr => exact retired_routine h hk hr
  | save => exact hk
  | restart =>
    obtain ⟨ms, -, he⟩ := World.restart_evolves h.saved
    exact he.registry.symm ▸ ⟨hk.1, rfl⟩

theorem retired_events (h : WF env w) (hk : w.registry.Retired k) (es : List Event) :
    (es.foldl (World.step env) w).registry.Retired k :=
  (foldl_invariant (P := fun w => WF env w ∧ w.registry.Retired k) (World.step env)
    (fun _ e h => ⟨h.1.step e, step_invariant (fun _ _ _ _ hw hr hm => retired_move hw hr hm)
      (fun _ _ hw hr hc => retired_chore hw hr hc) h.1 h.2 e⟩) es ⟨h, hk⟩).2

theorem Server.onMessage_retired (hk : w.registry.Retired k) (sv : AuthServices) (msg : Option Json) :
    Server.onMessage env sv w k msg = w := by
  unfold Server.onMessage findClientByConnection
  rw [show w.manager.connectionToClient.lookup k = none from hk.2]

end

section
variable {env : Env} {w : World} {k : ConnectionPtr} {c d : ClientPtr}

theorem ClientsManager.makeOrphan_retired (h : WF env w) (hc : c ∈ w.manager.clients)
    (hk : (w.clientAt c).connection = some k) : (makeOrphan env w c).registry.Retired k :=
  (ClientsManager.makeOrphan_evolves h.indexed h.linked hc).registry.symm ▸
    Registry.retired_unlink h.indexed hc hk

theorem ClientsManager.remove_retired (h : WF env w) (hc : c ∈ w.manager.clients)
    (hk : (w.clientAt c).connection = some k) : (remove env w c).registry.Retired k :=
  (ClientsManager.remove_evolves h.indexed h.linked hc).registry.symm ▸
    (Registry.retired_unlink h.indexed hc hk).forget

theorem ClientsManager.makeOrphanByConnection_retired (h : WF env w) (hk : k ∈ w.opened) :
    (makeOrphanByConnection env w k).registry.Retired k := by
  unfold makeOrphanByConnection
  cases hc : findClientByConnection w k with
  | none => exact ⟨hk, hc⟩
  | some c =>
    obtain ⟨hcl, hck⟩ := ClientsManager.findClientByConnection_spec h hc
    exact ClientsManager.makeOrphan_retired h hcl hck

theorem Server.onClose_retired (h : WF env w) (hk : k ∈ w.opened) (status : Int) :
    (Server.onClose env w k status).registry.Retired k := by
  unfold Server.onClose
  split
  · unfold removeByConnection
    cases hc : findClientByConnection w k with
    | none => exact ⟨hk, hc⟩
    | some c =>
      obtain ⟨hcl, hck⟩ := ClientsManager.findClientByConnection_spec h hc
      exact ClientsManager.remove_retired h hcl hck
  · exact ClientsManager.makeOrphanByConnection_retired h hk

theorem Server.reviveClient_retired (h : WF env w) (hd : d ∈ w.manager.clients)
    (hc : c ∈ w.manager.clients) (hdc : d ≠ c) (hk : (w.clientAt c).connection = some k)
    (hdk : (w.clientAt d).connection ≠ none) : (Server.reviveClient env w d c).1.registry.Retired k := by
  obtain ⟨k', hk'⟩ := Option.ne_none_iff_exists'.mp hdk
  have he := (ClientsManager.reviveClient_evolves h.indexed h.linked hd hc hdc hk').then_frame
    (Server.reviveClient_frame w d c)
  rw [he.registry]
  have hd' : d ∈ (w.registry.unlink c).clients := (Registry.unlink_clients _ c).symm ▸ hd
  have hkd : (w.registry.unlink c).connection d = some k' := by
    rw [Registry.unlink_connection, Function.update_of_ne hdc]
    exact hk'
  exact (Registry.retired_unlink h.indexed hc hk).adopt (h.indexed.unlink hc) hd' hkd

theorem Server.onOpen_retired (h : WF env w) (hk : k ∉ w.opened)
    (hfull : Server.maxConnectionsFromIp ≤ (counterAt w (env.realIp k)).connections)
    (draws : List Token) : (w.handle env (.connected k draws)).registry.Retired k := by
  have hhandle : w.handle env (.connected k draws) =
      Server.onOpen env { w with opened := k :: w.opened } k draws := if_neg hk
  have hcounter : counterAt (w.arrival env k) (env.realIp k) = counterAt w (env.realIp k) :=
    Registry.counterAt_touch w.registry (env.realIp k) (env.realIp k)
  rw [hhandle]
  rcases Server.onOpen_cases env h k draws with ⟨-, he⟩ | ⟨hcn, -⟩
  · rw [he]
    refine ⟨List.mem_cons_self, ?_⟩
    cases hlook : w.manager.connectionToClient.lookup k with
    | none => exact hlook
    | some c => exact absurd (h.indexed.opened c ((h.indexed.connIff k c).mp hlook).1 k
        ((h.indexed.connIff k c).mp hlook).2) hk
  · rw [hcounter] at hcn
    exact absurd hfull (not_le.mpr hcn)

end

/-- The vector of clients and the two maps agree in every run, and a connection that was opened
and has no client stays without one: what arrives on it changes nothing. Such are the
connections that were closed, failed, were orphaned, refused or superseded. -/
theorem run_registry_consistent (env : Env) (es : List Event) :
    let w := run env es
    let Dead (w : World) (k : ConnectionPtr) := k ∈ w.opened ∧ findClientByConnection w k = none
    w.manager.clients.Nodup ∧
    (∀ k c, w.manager.connectionToClient.lookup k = some c ↔
      c ∈ w.manager.clients ∧ (w.clientAt c).connection = some k) ∧
    (∀ t c, w.manager.tokenToClient.lookup t = some c ↔
      c ∈ w.manager.clients ∧ (w.clientAt c).token = t) ∧
    (∀ c ∈ w.manager.clients, ∀ d ∈ w.manager.clients, c ≠ d →
      (w.clientAt c).token ≠ (w.clientAt d).token ∧
      ∀ k, (w.clientAt c).connection = some k → (w.clientAt d).connection ≠ some k) ∧
    (∀ k, Dead w k → ∀ es' sv msg,
      Server.onMessage env sv (run env (es ++ es')) k msg = run env (es ++ es')) ∧
    (∀ k ∈ w.opened, (∀ status, Dead (Server.onClose env w k status) k) ∧ Dead (Server.onError env w k) k) ∧
    (∀ c ∈ w.manager.clients, ∀ k, (w.clientAt c).connection = some k →
      Dead (makeOrphan env w c) k ∧ Dead (remove env w c) k ∧
      ∀ d ∈ w.manager.clients, d ≠ c → (w.clientAt d).connection ≠ none →
        Dead (Server.reviveClient env w d c).1 k) ∧
    ∀ k ∉ w.opened, Server.maxConnectionsFromIp ≤ (counterAt w (env.realIp k)).connections →
      ∀ draws, Dead (w.handle env (.connected k draws)) k := by
  intro w Dead
  have h : WF env w := wf_run env es
  refine ⟨h.indexed.nodup, h.indexed.connIff, h.indexed.tokenIff, ?_, ?_, ?_, ?_, ?_⟩
  · intro c hc d hd hne
    refine ⟨fun ht => hne (h.indexed.token_inj hc hd ht), fun k hck hdk => hne ?_⟩
    exact h.indexed.conn_inj hc hd hck hdk
  · intro k hk es' sv msg
    rw [run, List.foldl_append]
    exact Server.onMessage_retired (retired_events h hk es') sv msg
  · intro k hk
    exact ⟨fun status => Server.onClose_retired h hk status,
      ClientsManager.makeOrphanByConnection_retired h hk⟩
  · intro c hc k hck
    exact ⟨ClientsManager.makeOrphan_retired h hc hck, ClientsManager.remove_retired h hc hck,
      fun d hd hdc hdk => Server.reviveClient_retired h hd hc hdc hck hdk⟩
  · intro k hk hfull draws
    exact Server.onOpen_retired h hk hfull draws

/-- The counters of an address count its clients and its connections in every run, so that no
decrement was ever clamped. An address has an entry just when it has clients, except while a
handler is caught in a loop. -/
theorem run_counters_exact (env : Env) (es : List Event) :
    let w := run env es
    (∀ ip,
      (counterAt w ip).clients =
        (w.manager.clients.countP fun c => (w.clientAt c).lastClientIP = ip : Nat) ∧
      (counterAt w ip).connections =
        (w.manager.clients.countP fun c =>
          (w.clientAt c).lastClientIP = ip ∧ (w.clientAt c).connection.isSome : Nat) ∧
      (w.hung = false → ((w.manager.countersFromIp.lookup ip).isSome ↔
        0 < w.manager.clients.countP fun c => (w.clientAt c).lastClientIP = ip))) ∧
    w.clamped = false := by
  intro w
  have h : WF env w := wf_run env es
  exact ⟨fun ip => ⟨h.counted.clients ip, h.counted.connections ip, fun hh => h.listed hh ip⟩,
    h.counted.unclamped⟩

section
variable {env : Env} {w : World} {k : ConnectionPtr} {c : ClientPtr} {draws : List Token}

theorem ClientsManager.connect_clients (w : World) (k : ConnectionPtr) (draws : List Token)
    (hc : c ∈ w.manager.clients) : c ∈ (connect env w k draws).manager.clients := by
  rcases ClientsManager.connect_evolves env w k draws with ⟨token, -, -, he⟩ | he
  · have hreg : (connect env w k draws).registry.clients = w.registry.clients ++ [⟨w.nextClient⟩] := by
      rw [he.registry]
      rfl
    exact (congrArg (c ∈ ·) hreg).mpr (List.mem_append_left _ hc)
  · rw [he]
    exact hc

theorem Server.onOpen_keeps (h : WF env w) (hk : k ∉ w.opened) (hc : c ∈ w.manager.clients)
    (hlive : (w.clientAt c).connection ≠ none) :
    c ∈ (w.handle env (.connected k draws)).manager.clients := by
  have hhandle : w.handle env (.connected k draws) =
      Server.onOpen env { w with opened := k :: w.opened } k draws := if_neg hk
  have hc₁ : c ∈ (w.arrival env k).manager.clients := hc
  rw [hhandle]
  rcases Server.onOpen_cases env h k draws with ⟨-, he⟩ | ⟨-, ⟨-, he⟩ | ⟨d, hd, -, hdk, -, he⟩⟩
  · rw [he]
    exact hc
  · rw [he]
    exact ClientsManager.connect_clients _ k draws hc₁
  · rw [he]
    have hcd : c ≠ d := by
      rintro rfl
      exact hlive hdk
    have hev := ClientsManager.remove_orphan_evolves (World.arrival_indexed h) h.linked hd hdk
    have hreg : (remove env (w.arrival env k) d).registry.clients =
        (w.arrival env k).registry.clients.erase d := by
      rw [hev.registry]
      rfl
    apply ClientsManager.connect_clients
    exact (congrArg (c ∈ ·) hreg).mpr (List.mem_erase_of_ne hcd |>.mpr hc₁)

end

/-- No address ever has more clients or connections than it may. Where `onOpen` finds the
clients of an address at their limit and the connections below it, the first orphan of the
address is there to be removed, and no client with a connection ever is. -/
theorem run_limits_hold (env : Env) (es : List Event) :
    let w := run env es
    (∀ ip,
      ((w.manager.clients.countP fun c =>
        (w.clientAt c).lastClientIP = ip ∧ (w.clientAt c).connection.isSome : Nat) : Int) ≤
          Server.maxConnectionsFromIp ∧
      ((w.manager.clients.countP fun c => (w.clientAt c).lastClientIP = ip : Nat) : Int) ≤
        Server.maxClientsFromIp) ∧
    ∀ k ∉ w.opened, ∀ draws,
      let w₁ := (getCounterFromIp { w with opened := k :: w.opened } (env.realIp k)).2
      let counter := counterAt w (env.realIp k)
      (counter.connections < Server.maxConnectionsFromIp → Server.maxClientsFromIp ≤ counter.clients →
        ∃ c ∈ w.manager.clients, (w.clientAt c).connection = none ∧
          (w.clientAt c).lastClientIP = env.realIp k ∧
          findFirstClient w₁ (Server.isOrphanOf w₁ (env.realIp k)) = some c ∧
          w.handle env (.connected k draws) = connect env (remove env w₁ c) k draws) ∧
      ∀ c ∈ w.manager.clients, (w.clientAt c).connection ≠ none →
        c ∈ (w.handle env (.connected k draws)).manager.clients := by
  intro w
  have h : WF env w := wf_run env es
  refine ⟨?_, ?_⟩
  · intro ip
    have hlim := h.limited ip
    simp only [Registry.clientsFrom, Registry.liveFrom] at hlim
    unfold Server.maxConnectionsFromIp Server.maxClientsFromIp
    exact ⟨Int.ofNat_le.mpr hlim.2, Int.ofNat_le.mpr hlim.1⟩
  · intro k hk draws w₁ counter
    have hhandle : w.handle env (.connected k draws) =
        Server.onOpen env { w with opened := k :: w.opened } k draws := if_neg hk
    have hcounter : counterAt (w.arrival env k) (env.realIp k) = counter :=
      Registry.counterAt_touch w.registry (env.realIp k) (env.realIp k)
    refine ⟨?_, fun c hc hlive => Server.onOpen_keeps h hk hc hlive⟩
    intro hcn hcl
    rw [hhandle]
    rcases Server.onOpen_cases env h k draws with ⟨hfull, -⟩ | ⟨-, ⟨hfew, -⟩ | ⟨c, hc, hfind, hck, hcip, he⟩⟩
    · rw [hcounter] at hfull
      exact absurd hfull (not_le.mpr hcn)
    · rw [hcounter] at hfew
      exact absurd hcl (not_le.mpr hfew)
    · exact ⟨c, hc, hck, hcip, hfind, he⟩

end WsChat
