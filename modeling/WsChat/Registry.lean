import WsChat.Effects
import WsChat.Lib.Lists

/-! The client registry as a machine of its own: a vector of clients, two maps, the
counters, and the connection, address and token inside each client. The operations of
`ClientsManager` are compositions of four of its moves. -/
namespace WsChat
open Lib

structure Registry where
  manager : ClientsManager
  connection : ClientPtr → Option ConnectionPtr
  lastClientIP : ClientPtr → Bytes
  token : ClientPtr → Bytes
  opened : List ConnectionPtr
  nextClient : Nat
  clamped : Bool

def World.registry (w : World) : Registry where
  manager := w.manager
  connection := fun c => (w.clientAt c).connection
  lastClientIP := fun c => (w.clientAt c).lastClientIP
  token := fun c => (w.clientAt c).token
  opened := w.opened
  nextClient := w.nextClient
  clamped := w.clamped

namespace Registry
open ClientsManager (Field)

def clients (g : Registry) : List ClientPtr := g.manager.clients

def counterAt (g : Registry) (ip : Bytes) : Counter := (g.manager.countersFromIp.lookup ip).getD {}

/-- Clients of an address, and those of them that have a connection. -/
def clientsFrom (g : Registry) (ip : Bytes) : Nat := g.clients.countP fun c => g.lastClientIP c = ip

def liveFrom (g : Registry) (ip : Bytes) : Nat :=
  g.clients.countP fun c => g.lastClientIP c = ip ∧ (g.connection c).isSome

def decrement (g : Registry) (ip : Bytes) (field : Field) : Registry :=
  let n := field.get (g.counterAt ip) - 1
  let counter := field.set (g.counterAt ip) (if n < 0 then 0 else n)
  { g with
    clamped := if n < 0 then true else g.clamped
    manager := { g.manager with countersFromIp :=
      if counter.connections ≤ 0 ∧ counter.clients ≤ 0 then g.manager.countersFromIp.erase ip
      else g.manager.countersFromIp.insert ip counter } }

def unlink (g : Registry) (c : ClientPtr) : Registry :=
  match g.connection c with
  | none => g
  | some k =>
    let g := { g with manager := { g.manager with
      connectionToClient := g.manager.connectionToClient.erase k } }
    let g := g.decrement (g.lastClientIP c) .connections
    { g with connection := Function.update g.connection c none }

def forget (g : Registry) (c : ClientPtr) : Registry :=
  let g := { g with manager := { g.manager with
    clients := g.manager.clients.erase c
    tokenToClient := g.manager.tokenToClient.erase (g.token c) } }
  g.decrement (g.lastClientIP c) .clients

def adopt (env : Env) (g : Registry) (current target : ClientPtr) (k : ConnectionPtr) : Registry :=
  let g := g.decrement (g.lastClientIP target) .clients
  { g with
    connection := Function.update (Function.update g.connection current none) target (some k)
    lastClientIP := Function.update g.lastClientIP target (env.realIp k)
    manager := { g.manager with
      clients := g.manager.clients.erase current
      tokenToClient := g.manager.tokenToClient.erase (g.token current)
      connectionToClient := g.manager.connectionToClient.insert k target } }

def register (env : Env) (g : Registry) (k : ConnectionPtr) (token : Bytes) : Registry :=
  let c : ClientPtr := ⟨g.nextClient⟩
  let ip := env.realIp k
  { g with
    nextClient := g.nextClient + 1
    connection := Function.update g.connection c (some k)
    lastClientIP := Function.update g.lastClientIP c ip
    token := Function.update g.token c token
    manager := {
      clients := g.manager.clients ++ [c]
      connectionToClient := g.manager.connectionToClient.insert k c
      tokenToClient := g.manager.tokenToClient.insert token c
      countersFromIp := g.manager.countersFromIp.insert ip {
        clients := (g.counterAt ip).clients + 1
        connections := (g.counterAt ip).connections + 1 } } }

section
variable (g : Registry) (ip : Bytes) (field : Field)

@[simp] theorem decrement_clients : (g.decrement ip field).manager.clients = g.manager.clients := rfl
@[simp] theorem decrement_connectionToClient :
    (g.decrement ip field).manager.connectionToClient = g.manager.connectionToClient := rfl
@[simp] theorem decrement_tokenToClient :
    (g.decrement ip field).manager.tokenToClient = g.manager.tokenToClient := rfl
@[simp] theorem decrement_connection : (g.decrement ip field).connection = g.connection := rfl
@[simp] theorem decrement_lastClientIP : (g.decrement ip field).lastClientIP = g.lastClientIP := rfl
@[simp] theorem decrement_token : (g.decrement ip field).token = g.token := rfl
@[simp] theorem decrement_opened : (g.decrement ip field).opened = g.opened := rfl
@[simp] theorem decrement_nextClient : (g.decrement ip field).nextClient = g.nextClient := rfl

end

structure Indexed (env : Env) (g : Registry) : Prop where
  nodup : g.clients.Nodup
  connIff : ∀ k c, g.manager.connectionToClient.lookup k = some c ↔
    c ∈ g.clients ∧ g.connection c = some k
  tokenIff : ∀ t c, g.manager.tokenToClient.lookup t = some c ↔ c ∈ g.clients ∧ g.token c = t
  fresh : ∀ c ∈ g.clients, c.addr < g.nextClient
  opened : ∀ c ∈ g.clients, ∀ k, g.connection c = some k → k ∈ g.opened
  address : ∀ c ∈ g.clients, ∀ k, g.connection c = some k → g.lastClientIP c = env.realIp k
  tokens : ∀ c ∈ g.clients, g.token c ≠ []

structure Counted (g : Registry) : Prop where
  clients : ∀ ip, (g.counterAt ip).clients = g.clientsFrom ip
  connections : ∀ ip, (g.counterAt ip).connections = g.liveFrom ip
  unclamped : g.clamped = false

variable {env : Env} {g : Registry} {c d : ClientPtr} {k : ConnectionPtr}

theorem Indexed.conn_inj (h : g.Indexed env) (hc : c ∈ g.clients) (hd : d ∈ g.clients)
    (hck : g.connection c = some k) (hdk : g.connection d = some k) : c = d := by
  have h1 := (h.connIff k c).mpr ⟨hc, hck⟩
  have h2 := (h.connIff k d).mpr ⟨hd, hdk⟩
  exact Option.some.inj (h1.symm.trans h2)

theorem Indexed.token_inj (h : g.Indexed env) (hc : c ∈ g.clients) (hd : d ∈ g.clients)
    (ht : g.token c = g.token d) : c = d := by
  have h1 := (h.tokenIff (g.token d) c).mpr ⟨hc, ht⟩
  have h2 := (h.tokenIff (g.token d) d).mpr ⟨hd, rfl⟩
  exact Option.some.inj (h1.symm.trans h2)

theorem Indexed.unlink (h : g.Indexed env) (hc : c ∈ g.clients) : (g.unlink c).Indexed env := by
  unfold Registry.unlink
  cases hk : g.connection c with
  | none => exact h
  | some k =>
    refine ⟨h.nodup, ?_, h.tokenIff, h.fresh, ?_, ?_, h.tokens⟩
    · intro k' d
      simp only [decrement_connectionToClient, decrement_connection, clients, decrement_clients]
      by_cases hkk : k' = k
      · subst hkk
        simp only [AList.lookup_erase, Function.update_apply, reduceCtorEq, false_iff, not_and]
        intro hd hdk
        split at hdk
        · cases hdk
        · rename_i hne
          exact hne (h.conn_inj hd hc hdk hk)
      · rw [AList.lookup_erase_ne hkk, h.connIff k' d]
        by_cases hdc : d = c
        · subst hdc
          simp [hk, Ne.symm hkk]
        · simp [hdc, clients]
    · intro d hd k' hdk
      simp only [Function.update_apply] at hdk
      split at hdk
      · cases hdk
      · exact h.opened d hd k' hdk
    · intro d hd k' hdk
      simp only [Function.update_apply] at hdk
      split at hdk
      · cases hdk
      · exact h.address d hd k' hdk

theorem Indexed.forget (h : g.Indexed env) (hc : c ∈ g.clients) (hk : g.connection c = none) :
    (g.forget c).Indexed env := by
  unfold Registry.forget
  have hmem : ∀ d, d ∈ g.manager.clients.erase c ↔ d ≠ c ∧ d ∈ g.manager.clients :=
    fun d => h.nodup.mem_erase_iff
  refine ⟨h.nodup.erase c, ?_, ?_, ?_, ?_, ?_, fun d hd => h.tokens d ((hmem d).mp hd).2⟩
  · intro k d
    simp only [decrement_connectionToClient, clients, decrement_clients, decrement_connection, hmem]
    rw [h.connIff k d]
    constructor
    · rintro ⟨hd, hdk⟩
      have hdc : d ≠ c := by
        rintro rfl
        rw [hk] at hdk
        cases hdk
      exact ⟨⟨hdc, hd⟩, hdk⟩
    · rintro ⟨⟨_, hd⟩, hdk⟩
      exact ⟨hd, hdk⟩
  · intro t d
    simp only [decrement_tokenToClient, clients, decrement_clients, decrement_token, hmem]
    by_cases ht : t = g.token c
    · subst ht
      simp only [AList.lookup_erase, reduceCtorEq, false_iff, not_and]
      rintro ⟨hdc, hd⟩ he
      exact hdc (h.token_inj hd hc he)
    · rw [AList.lookup_erase_ne ht, h.tokenIff t d]
      constructor
      · rintro ⟨hd, rfl⟩
        exact ⟨⟨fun he => ht (by rw [he]), hd⟩, rfl⟩
      · rintro ⟨⟨_, hd⟩, he⟩
        exact ⟨hd, he⟩
  · exact fun d hd => h.fresh d ((hmem d).mp hd).2
  · exact fun d hd => h.opened d ((hmem d).mp hd).2
  · exact fun d hd => h.address d ((hmem d).mp hd).2

theorem Indexed.adopt (h : g.Indexed env) (hc : c ∈ g.clients) (hd : d ∈ g.clients) (hcd : c ≠ d)
    (hk : g.connection c = some k) (hdk : g.connection d = none) : (g.adopt env c d k).Indexed env := by
  unfold Registry.adopt
  have hmem : ∀ x, x ∈ g.manager.clients.erase c ↔ x ≠ c ∧ x ∈ g.manager.clients :=
    fun x => h.nodup.mem_erase_iff
  have hnot : ∀ x ∈ g.clients, ∀ k', x ≠ c → g.connection x = some k' → k' ≠ k := by
    intro x hx k' hxc hxk he
    rw [he] at hxk
    exact hxc (h.conn_inj hx hc hxk hk)
  refine ⟨h.nodup.erase c, ?_, ?_, ?_, ?_, ?_, fun x hx => h.tokens x ((hmem x).mp hx).2⟩
  · intro k' x
    simp only [decrement_connectionToClient, clients, decrement_clients, decrement_connection, hmem,
      Function.update_apply]
    by_cases hkk : k' = k
    · subst hkk
      simp only [AList.lookup_insert, Option.some.injEq]
      constructor
      · rintro rfl
        exact ⟨⟨Ne.symm hcd, hd⟩, by simp⟩
      · rintro ⟨⟨hxc, hx⟩, hxk⟩
        by_contra hxd
        rw [if_neg (Ne.symm hxd), if_neg hxc] at hxk
        exact hnot x hx k' hxc hxk rfl
    · rw [AList.lookup_insert_ne hkk, h.connIff k' x]
      by_cases hxd : x = d
      · subst hxd
        simp [hdk, Ne.symm hkk]
      · by_cases hxc : x = c
        · subst hxc
          simp [hk, Ne.symm hkk]
        · simp [hxd, hxc, clients]
  · intro t x
    simp only [decrement_tokenToClient, clients, decrement_clients, decrement_token, hmem]
    by_cases ht : t = g.token c
    · subst ht
      simp only [AList.lookup_erase, reduceCtorEq, false_iff, not_and]
      rintro ⟨hxc, hx⟩ he
      exact hxc (h.token_inj hx hc he)
    · rw [AList.lookup_erase_ne ht, h.tokenIff t x]
      constructor
      · rintro ⟨hx, rfl⟩
        exact ⟨⟨fun he => ht (by rw [he]), hx⟩, rfl⟩
      · rintro ⟨⟨_, hx⟩, he⟩
        exact ⟨hx, he⟩
  · exact fun x hx => h.fresh x ((hmem x).mp hx).2
  · intro x hx k' hxk
    have hx' := (hmem x).mp hx
    simp only [decrement_connection, Function.update_apply, if_neg hx'.1] at hxk
    split at hxk
    · cases hxk
      exact h.opened c hc _ hk
    · exact h.opened x hx'.2 k' hxk
  · intro x hx k' hxk
    have hx' := (hmem x).mp hx
    simp only [decrement_connection, decrement_lastClientIP, Function.update_apply,
      if_neg hx'.1] at hxk ⊢
    split at hxk
    · cases hxk
      rw [if_pos ‹x = d›]
    · rw [if_neg ‹¬x = d›]
      exact h.address x hx'.2 k' hxk

theorem Indexed.register (h : g.Indexed env) (hk : ∀ c ∈ g.clients, g.connection c ≠ some k)
    (hko : k ∈ g.opened) {t : Bytes} (ht0 : t ≠ []) (ht : g.manager.tokenToClient.lookup t = none) :
    (g.register env k t).Indexed env := by
  have hne : ∀ c ∈ g.clients, c ≠ (⟨g.nextClient⟩ : ClientPtr) := by
    rintro c hc rfl
    exact absurd (h.fresh _ hc) (Nat.lt_irrefl _)
  have hnew : (⟨g.nextClient⟩ : ClientPtr) ∉ g.clients := fun hc => hne _ hc rfl
  have hmem : ∀ x, x ∈ g.clients ++ [(⟨g.nextClient⟩ : ClientPtr)] ↔
      x ∈ g.clients ∨ x = ⟨g.nextClient⟩ := by simp
  unfold Registry.register
  refine ⟨?_, ?_, ?_, ?_, ?_, ?_, ?_⟩
  · exact List.nodup_append.mpr ⟨h.nodup, List.nodup_singleton _, by
      intro a ha b hb he
      rw [List.mem_singleton] at hb
      exact hne a ha (he.trans hb)⟩
  · intro k' x
    change _ ↔ x ∈ g.clients ++ [_] ∧ _
    simp only [hmem, Function.update_apply]
    by_cases hkk : k' = k
    · subst hkk
      simp only [AList.lookup_insert, Option.some.injEq]
      constructor
      · rintro rfl
        simp
      · rintro ⟨hx, hxk⟩
        rcases hx with hx | rfl
        · rw [if_neg (hne x hx)] at hxk
          exact absurd hxk (hk x hx)
        · rfl
    · rw [AList.lookup_insert_ne hkk, h.connIff k' x]
      constructor
      · rintro ⟨hx, hxk⟩
        exact ⟨Or.inl hx, by rw [if_neg (hne x hx)]; exact hxk⟩
      · rintro ⟨hx | rfl, hxk⟩
        · rw [if_neg (hne x hx)] at hxk
          exact ⟨hx, hxk⟩
        · rw [if_pos rfl] at hxk
          exact absurd (Option.some.inj hxk).symm hkk
  · intro t' x
    change _ ↔ x ∈ g.clients ++ [_] ∧ _
    simp only [hmem, Function.update_apply]
    by_cases htt : t' = t
    · subst htt
      simp only [AList.lookup_insert, Option.some.injEq]
      constructor
      · rintro rfl
        simp
      · rintro ⟨hx, hxt⟩
        rcases hx with hx | rfl
        · rw [if_neg (hne x hx)] at hxt
          rw [(h.tokenIff t' x).mpr ⟨hx, hxt⟩] at ht
          cases ht
        · rfl
    · rw [AList.lookup_insert_ne htt, h.tokenIff t' x]
      constructor
      · rintro ⟨hx, hxt⟩
        exact ⟨Or.inl hx, by rw [if_neg (hne x hx)]; exact hxt⟩
      · rintro ⟨hx | rfl, hxt⟩
        · rw [if_neg (hne x hx)] at hxt
          exact ⟨hx, hxt⟩
        · rw [if_pos rfl] at hxt
          exact absurd hxt.symm htt
  · intro x hx
    rcases (hmem x).mp hx with hx | rfl
    · exact Nat.lt_succ_of_lt (h.fresh x hx)
    · exact Nat.lt_succ_self _
  · intro x hx k' hxk
    simp only [Function.update_apply] at hxk
    rcases (hmem x).mp hx with hx | rfl
    · rw [if_neg (hne x hx)] at hxk
      exact h.opened x hx k' hxk
    · rw [if_pos rfl] at hxk
      cases hxk
      exact hko
  · intro x hx k' hxk
    simp only [Function.update_apply] at hxk ⊢
    rcases (hmem x).mp hx with hx | rfl
    · rw [if_neg (hne x hx)] at hxk ⊢
      exact h.address x hx k' hxk
    · rw [if_pos rfl] at hxk ⊢
      cases hxk
      rfl
  · intro x hx
    simp only [Function.update_apply]
    rcases (hmem x).mp hx with hx | rfl
    · rw [if_neg (hne x hx)]
      exact h.tokens x hx
    · rw [if_pos rfl]
      exact ht0

/-- An address has an entry exactly while it has clients. -/
def Listed (g : Registry) (ip : Bytes) : Prop :=
  (g.manager.countersFromIp.lookup ip).isSome ↔ 0 < g.clientsFrom ip

/-- A connection that was opened and belongs to nobody any more. -/
def Retired (g : Registry) (k : ConnectionPtr) : Prop :=
  k ∈ g.opened ∧ g.manager.connectionToClient.lookup k = none

theorem Counted.nonneg (h : g.Counted) (ip : Bytes) :
    0 ≤ (g.counterAt ip).connections ∧ 0 ≤ (g.counterAt ip).clients := by
  rw [h.clients, h.connections]
  omega

theorem liveFrom_le (g : Registry) (ip : Bytes) : g.liveFrom ip ≤ g.clientsFrom ip :=
  List.countP_mono_left fun _ _ h => by simp only [decide_eq_true_eq] at h ⊢; exact h.1

section decrement
variable {ip : Bytes} {field : Field} (h0 : 0 ≤ (g.counterAt ip).connections)
  (h1 : 0 ≤ (g.counterAt ip).clients) (hf : 0 < field.get (g.counterAt ip))
include hf

theorem decrement_clamped : (g.decrement ip field).clamped = g.clamped := by
  have hn : ¬ field.get (g.counterAt ip) - 1 < 0 := by omega
  simp [decrement, hn]

include h0 h1

theorem counterAt_decrement (ip' : Bytes) :
    (g.decrement ip field).counterAt ip' =
      if ip' = ip then field.set (g.counterAt ip) (field.get (g.counterAt ip) - 1)
      else g.counterAt ip' := by
  have hn : ¬ field.get (g.counterAt ip) - 1 < 0 := by omega
  unfold decrement counterAt
  simp only [counterAt] at h0 h1 hf hn
  simp only [if_neg hn]
  by_cases hi : ip' = ip
  · subst hi
    split
    · rename_i hz
      -- the erased counter was zero, which is what a new entry would be
      rw [AList.lookup_erase, if_pos rfl]
      generalize (g.manager.countersFromIp.lookup ip').getD {} = cnt at *
      cases field <;> cases cnt <;> simp_all [Field.get, Field.set] <;> omega
    · simp
  · split
    · rw [AList.lookup_erase_ne hi]
    · rw [AList.lookup_insert_ne hi]

end decrement

theorem lookup_decrement_ne {ip ip' : Bytes} {field : Field} (hi : ip' ≠ ip) :
    (g.decrement ip field).manager.countersFromIp.lookup ip' = g.manager.countersFromIp.lookup ip' := by
  unfold decrement
  dsimp only
  generalize field.set _ _ = counter
  split
  · rw [AList.lookup_erase_ne hi]
  · rw [AList.lookup_insert_ne hi]

section
variable {ip : Bytes} {field : Field}

theorem Counted.decrement (h : g.Counted) (hf : 0 < field.get (g.counterAt ip)) :
    (g.decrement ip field).clamped = false ∧ ∀ ip', (g.decrement ip field).counterAt ip' =
      if ip' = ip then field.set (g.counterAt ip) (field.get (g.counterAt ip) - 1)
      else g.counterAt ip' :=
  ⟨(decrement_clamped hf).trans h.unclamped,
    counterAt_decrement (h.nonneg ip).1 (h.nonneg ip).2 hf⟩

end

theorem clientsFrom_pos (hc : c ∈ g.clients) : 0 < g.clientsFrom (g.lastClientIP c) :=
  List.countP_pos_iff.mpr ⟨c, hc, by simp⟩

theorem liveFrom_pos (hc : c ∈ g.clients) (hk : g.connection c = some k) :
    0 < g.liveFrom (g.lastClientIP c) :=
  List.countP_pos_iff.mpr ⟨c, hc, by simp [hk]⟩

theorem Counted.unlink (h : g.Counted) (hn : g.clients.Nodup) (hc : c ∈ g.clients) :
    (g.unlink c).Counted := by
  unfold Registry.unlink
  cases hk : g.connection c with
  | none => exact h
  | some k =>
    have hpos : 0 < Field.connections.get (g.counterAt (g.lastClientIP c)) := by
      have := liveFrom_pos hc hk
      have := h.connections (g.lastClientIP c)
      simp only [Field.get]
      omega
    obtain ⟨hcl, hat⟩ := Counted.decrement
      (g := { g with manager := { g.manager with
        connectionToClient := g.manager.connectionToClient.erase k } })
      ⟨h.clients, h.connections, h.unclamped⟩ hpos
    refine ⟨?_, ?_, hcl⟩
    · intro ip
      refine (congrArg Counter.clients (hat ip)).trans ?_
      split
      · rename_i he
        subst he
        exact h.clients _
      · exact h.clients ip
    · intro ip
      have hcount := countP_change (fun x => decide (g.lastClientIP x = ip ∧ (g.connection x).isSome))
        (fun x => decide (g.lastClientIP x = ip ∧ (Function.update g.connection c none x).isSome))
        hn hc (fun b _ hb => by simp [hb])
      refine (congrArg Counter.connections (hat ip)).trans ?_
      change _ = ((g.clients.countP fun x => decide (g.lastClientIP x = ip ∧
        (Function.update g.connection c none x).isSome) : Nat) : Int)
      simp only [Function.update_self, hk, Option.isSome_none, Option.isSome_some, and_true,
        Bool.false_eq_true, and_false, decide_false, decide_eq_true_eq, if_false] at hcount
      have hold : (g.counterAt ip).connections = _ := h.connections ip
      rw [liveFrom] at hold
      split
      · rename_i he
        subst he
        change (g.counterAt (g.lastClientIP c)).connections - 1 = _
        rw [if_pos rfl] at hcount
        omega
      · rename_i he
        change (g.counterAt ip).connections = _
        rw [if_neg (Ne.symm he)] at hcount
        omega

theorem Counted.forget (h : g.Counted) (hc : c ∈ g.clients) (hk : g.connection c = none) :
    (g.forget c).Counted := by
  have hpos : 0 < Field.clients.get (g.counterAt (g.lastClientIP c)) := by
    have := clientsFrom_pos hc
    have := h.clients (g.lastClientIP c)
    simp only [Field.get]
    omega
  have hn := h.nonneg (g.lastClientIP c)
  unfold Registry.forget
  refine ⟨?_, ?_, (decrement_clamped hpos).trans h.unclamped⟩
  · intro ip
    refine (congrArg Counter.clients (counterAt_decrement hn.1 hn.2 hpos ip)).trans ?_
    change _ = (((g.clients.erase c).countP fun x => decide (g.lastClientIP x = ip) : Nat) : Int)
    have hcount := countP_erase_add (fun x => decide (g.lastClientIP x = ip)) hc
    have hold : (g.counterAt ip).clients = _ := h.clients ip
    rw [clientsFrom] at hold
    simp only [decide_eq_true_eq] at hcount
    split
    · rename_i he
      subst he
      change (g.counterAt (g.lastClientIP c)).clients - 1 = _
      rw [if_pos rfl] at hcount
      omega
    · rename_i he
      change (g.counterAt ip).clients = _
      rw [if_neg (Ne.symm he)] at hcount
      omega
  · intro ip
    refine (congrArg Counter.connections (counterAt_decrement hn.1 hn.2 hpos ip)).trans ?_
    change _ = (((g.clients.erase c).countP
      fun x => decide (g.lastClientIP x = ip ∧ (g.connection x).isSome) : Nat) : Int)
    have hcount := countP_erase_add
      (fun x => decide (g.lastClientIP x = ip ∧ (g.connection x).isSome)) hc
    have hold : (g.counterAt ip).connections = _ := h.connections ip
    rw [liveFrom] at hold
    simp only [hk, Option.isSome_none, Bool.false_eq_true, and_false, decide_false, if_false] at hcount
    split
    · rename_i he
      subst he
      change (g.counterAt (g.lastClientIP c)).connections = _
      omega
    · change (g.counterAt ip).connections = _
      omega

theorem Counted.adopt (h : g.Counted) (hi : g.Indexed env) (hc : c ∈ g.clients) (hd : d ∈ g.clients)
    (hcd : c ≠ d) (hk : g.connection c = some k) (hdk : g.connection d = none) :
    (g.adopt env c d k).Counted := by
  have hpos : 0 < Field.clients.get (g.counterAt (g.lastClientIP d)) := by
    have := clientsFrom_pos hd
    have := h.clients (g.lastClientIP d)
    simp only [Field.get]
    omega
  have hn := h.nonneg (g.lastClientIP d)
  have hip : env.realIp k = g.lastClientIP c := (hi.address c hc k hk).symm
  have hdc : d ≠ c := Ne.symm hcd
  unfold Registry.adopt
  refine ⟨?_, ?_, (decrement_clamped hpos).trans h.unclamped⟩
  · intro ip
    refine (congrArg Counter.clients (counterAt_decrement hn.1 hn.2 hpos ip)).trans ?_
    let test := fun x => decide (Function.update g.lastClientIP d (env.realIp k) x = ip)
    change _ = (((g.clients.erase c).countP test : Nat) : Int)
    have herase := countP_erase_add test hc
    have hmove := countP_change (fun x => decide (g.lastClientIP x = ip)) test hi.nodup hd
      (fun b _ hb => by simp [test, hb])
    have hold : (g.counterAt ip).clients = _ := h.clients ip
    rw [clientsFrom] at hold
    simp only [test, decide_eq_true_eq, Function.update_self, Function.update_of_ne hcd, hip]
      at herase hmove ⊢
    split
    · rename_i he
      subst he
      change (g.counterAt (g.lastClientIP d)).clients - 1 = _
      rw [if_pos rfl] at hmove
      omega
    · rename_i he
      change (g.counterAt ip).clients = _
      rw [if_neg (Ne.symm he)] at hmove
      omega
  · intro ip
    refine (congrArg Counter.connections (counterAt_decrement hn.1 hn.2 hpos ip)).trans ?_
    -- the test changes at the client that leaves and at the one that takes over
    let mid := fun x => decide (g.lastClientIP x = ip ∧ (Function.update g.connection c none x).isSome)
    let test := fun x => decide (Function.update g.lastClientIP d (env.realIp k) x = ip ∧
      (Function.update (Function.update g.connection c none) d (some k) x).isSome)
    change _ = (((g.clients.erase c).countP test : Nat) : Int)
    have herase := countP_erase_add test hc
    have hleave := countP_change (fun x => decide (g.lastClientIP x = ip ∧ (g.connection x).isSome)) mid
      hi.nodup hc (fun b _ hb => by simp [mid, hb])
    have hmove := countP_change mid test hi.nodup hd (fun b _ hb => by simp [mid, test, hb])
    have hold : (g.counterAt ip).connections = _ := h.connections ip
    rw [liveFrom] at hold
    simp only [mid, test, hk, hdk, hip, Function.update_self, Function.update_of_ne hcd,
      Function.update_of_ne hdc, Option.isSome_none, Option.isSome_some, and_true, Bool.false_eq_true,
      and_false, decide_false, decide_eq_true_eq, if_false] at herase hleave hmove ⊢
    split
    · rename_i he
      subst he
      change (g.counterAt (g.lastClientIP d)).connections = _
      omega
    · change (g.counterAt ip).connections = _
      omega

theorem Counted.register (h : g.Counted) (hi : g.Indexed env) {t : Bytes} :
    (g.register env k t).Counted := by
  have hne : ∀ c ∈ g.clients, c ≠ (⟨g.nextClient⟩ : ClientPtr) := by
    rintro c hc rfl
    exact absurd (hi.fresh _ hc) (Nat.lt_irrefl _)
  have hat : ∀ ip, (g.register env k t).counterAt ip = if ip = env.realIp k then
      { clients := (g.counterAt (env.realIp k)).clients + 1
        connections := (g.counterAt (env.realIp k)).connections + 1 } else g.counterAt ip := by
    intro ip
    unfold Registry.register
    simp only [counterAt]
    by_cases he : ip = env.realIp k
    · subst he
      simp
    · rw [AList.lookup_insert_ne he, if_neg he]
  refine ⟨?_, ?_, h.unclamped⟩
  · intro ip
    have hcount : (g.register env k t).clientsFrom ip =
        g.clientsFrom ip + if env.realIp k = ip then 1 else 0 := by
      unfold Registry.register clientsFrom
      change (g.clients ++ [_]).countP _ = _
      rw [List.countP_append, List.countP_singleton]
      congr 1
      · exact List.countP_congr fun b hb => by simp [hne b hb]
      · simp
    rw [hat, hcount]
    have := h.clients ip
    split
    · rename_i he
      subst he
      simp only [if_true]
      omega
    · rename_i he
      rw [if_neg (Ne.symm he)]
      omega
  · intro ip
    have hcount : (g.register env k t).liveFrom ip =
        g.liveFrom ip + if env.realIp k = ip then 1 else 0 := by
      unfold Registry.register liveFrom
      change (g.clients ++ [_]).countP _ = _
      rw [List.countP_append, List.countP_singleton]
      congr 1
      · exact List.countP_congr fun b hb => by simp [hne b hb]
      · simp
    rw [hat, hcount]
    have := h.connections ip
    split
    · rename_i he
      subst he
      simp only [if_true]
      omega
    · rename_i he
      rw [if_neg (Ne.symm he)]
      omega

theorem listed_decrement {g' : Registry} {ip : Bytes} {field : Field} (h : g'.Counted)
    (he : g'.manager.countersFromIp = (g.decrement ip field).manager.countersFromIp) : g'.Listed ip := by
  have hcl := h.clients ip
  have hco := h.connections ip
  have hle := liveFrom_le g' ip
  unfold Listed
  unfold counterAt at hcl hco
  rw [he] at hcl hco ⊢
  unfold decrement at hcl hco ⊢
  dsimp only at hcl hco ⊢
  generalize field.set _ _ = counter at hcl hco ⊢
  split at hcl
  · rename_i hz
    simp only [if_pos hz, AList.lookup_erase, Option.getD_none] at hcl hco ⊢
    simp only [Option.isSome_none, Bool.false_eq_true, false_iff]
    omega
  · rename_i hz
    simp only [if_neg hz, AList.lookup_insert, Option.getD_some] at hcl hco ⊢
    simp only [Option.isSome_some, true_iff]
    omega

theorem Listed.unlink {ip : Bytes} (h : g.Listed ip) (hco : (g.unlink c).Counted) :
    (g.unlink c).Listed ip := by
  revert hco
  unfold Registry.unlink
  cases g.connection c with
  | none => exact fun _ => h
  | some k =>
    intro hco
    by_cases hi : ip = g.lastClientIP c
    · subst hi
      exact listed_decrement hco rfl
    · unfold Listed at h ⊢
      exact (iff_of_eq (congrArg (fun x => Option.isSome x = true) (lookup_decrement_ne hi))).trans h

theorem Listed.forget {ip : Bytes} (h : g.Listed ip) (hc : c ∈ g.clients)
    (hco : (g.forget c).Counted) : (g.forget c).Listed ip := by
  by_cases hi : ip = g.lastClientIP c
  · subst hi
    exact listed_decrement hco rfl
  · have hfrom : (g.forget c).clientsFrom ip = g.clientsFrom ip := by
      have herase := countP_erase_add (fun x => decide (g.lastClientIP x = ip)) hc
      rw [if_neg (by simpa using Ne.symm hi)] at herase
      exact herase
    unfold Listed at h ⊢
    rw [hfrom, ← h]
    exact iff_of_eq (congrArg (fun x => Option.isSome x = true) (lookup_decrement_ne hi))

theorem Listed.adopt {ip : Bytes} (h : g.Listed ip) (hco : g.Counted)
    (hco' : (g.adopt env c d k).Counted) : (g.adopt env c d k).Listed ip := by
  by_cases hi : ip = g.lastClientIP d
  · subst hi
    exact listed_decrement hco' rfl
  · have hat : (g.adopt env c d k).counterAt ip = g.counterAt ip :=
      congrArg (fun x => Option.getD x ({} : Counter)) (lookup_decrement_ne hi)
    have hfrom : (g.adopt env c d k).clientsFrom ip = g.clientsFrom ip := by
      have h1 := hco'.clients ip
      have h2 := hco.clients ip
      rw [hat, h2] at h1
      exact_mod_cast h1.symm
    unfold Listed at h ⊢
    rw [hfrom, ← h]
    exact iff_of_eq (congrArg (fun x => Option.isSome x = true) (lookup_decrement_ne hi))

theorem Listed.register {ip : Bytes} {t : Bytes} (h : ip ≠ env.realIp k → g.Listed ip)
    (hco' : (g.register env k t).Counted) (hco : g.Counted) : (g.register env k t).Listed ip := by
  by_cases hi : ip = env.realIp k
  · subst hi
    have hcl := hco'.clients (env.realIp k)
    have hn := (hco.nonneg (env.realIp k)).2
    unfold Listed
    unfold counterAt at hcl
    unfold Registry.register at hcl ⊢
    simp only [AList.lookup_insert, Option.getD_some, Option.isSome_some, true_iff] at hcl ⊢
    omega
  · have hlook : (g.register env k t).manager.countersFromIp.lookup ip =
        g.manager.countersFromIp.lookup ip := AList.lookup_insert_ne hi
    have hat : (g.register env k t).counterAt ip = g.counterAt ip :=
      congrArg (fun x => Option.getD x ({} : Counter)) hlook
    have hfrom : (g.register env k t).clientsFrom ip = g.clientsFrom ip := by
      have h1 := hco'.clients ip
      have h2 := hco.clients ip
      rw [hat, h2] at h1
      exact_mod_cast h1.symm
    unfold Listed
    rw [hfrom, hlook]
    exact h hi

theorem Counted.exists_orphan (h : g.Counted) {ip : Bytes}
    (hlt : (g.counterAt ip).connections < (g.counterAt ip).clients) :
    ∃ c ∈ g.clients, g.lastClientIP c = ip ∧ g.connection c = none := by
  rw [h.clients, h.connections] at hlt
  obtain ⟨c, hc, hip, hlive⟩ := exists_of_countP_lt
    (fun c => decide (g.lastClientIP c = ip ∧ (g.connection c).isSome))
    (fun c => decide (g.lastClientIP c = ip)) (by exact_mod_cast hlt)
  simp only [decide_eq_true_eq, not_and, Bool.not_eq_true, Option.isSome_eq_false_iff,
    Option.isNone_iff_eq_none] at hip hlive
  exact ⟨c, hc, hip, hlive hip⟩

/-- At most so many clients and so many connections of one address. -/
def Limited (g : Registry) (maxClients maxConnections : Nat) : Prop :=
  ∀ ip, g.clientsFrom ip ≤ maxClients ∧ g.liveFrom ip ≤ maxConnections

section
variable {maxClients maxConnections : Nat}

theorem limited_decrement {g₀ g' : Registry} (ip : Bytes) (field : Field)
    (h : g.Limited maxClients maxConnections) (hco : g.Counted) (hco' : g'.Counted)
    (h₀ : g₀.manager.countersFromIp = g.manager.countersFromIp)
    (hf : 0 < field.get (g.counterAt ip))
    (he : g'.manager.countersFromIp = (g₀.decrement ip field).manager.countersFromIp) :
    g'.Limited maxClients maxConnections := by
  have hsame : ∀ ip', g₀.counterAt ip' = g.counterAt ip' := fun ip' => by
    simp only [counterAt, h₀]
  have hat : ∀ ip', g'.counterAt ip' = if ip' = ip
      then field.set (g.counterAt ip) (field.get (g.counterAt ip) - 1) else g.counterAt ip' := by
    intro ip'
    have hn := hco.nonneg ip
    rw [← hsame ip] at hn hf ⊢
    rw [← hsame ip', ← counterAt_decrement hn.1 hn.2 hf ip']
    simp only [counterAt, he]
  intro ip'
  have hcl := hco'.clients ip'
  have hcn := hco'.connections ip'
  have hcl₀ := hco.clients ip'
  have hcn₀ := hco.connections ip'
  have hle := h ip'
  rw [hat ip'] at hcl hcn
  split at hcl
  · rename_i hi
    subst hi
    rw [if_pos rfl] at hcn
    cases field <;> simp only [Field.set, Field.get] at hcl hcn <;> omega
  · rename_i hi
    rw [if_neg hi] at hcn
    omega

theorem Limited.unlink (h : g.Limited maxClients maxConnections) (hi : g.Indexed env)
    (hco : g.Counted) (hc : c ∈ g.clients) : (g.unlink c).Limited maxClients maxConnections := by
  have hco' := hco.unlink hi.nodup hc
  revert hco'
  unfold Registry.unlink
  cases hk : g.connection c with
  | none => exact fun _ => h
  | some k =>
    intro hco'
    have hpos := liveFrom_pos hc hk
    refine limited_decrement (g.lastClientIP c) .connections h hco hco' rfl ?_ rfl
    change 0 < (g.counterAt _).connections
    rw [hco.connections]
    omega

theorem Limited.forget (h : g.Limited maxClients maxConnections) (hco : g.Counted)
    (hc : c ∈ g.clients) (hk : g.connection c = none) :
    (g.forget c).Limited maxClients maxConnections := by
  have hpos := clientsFrom_pos hc
  refine limited_decrement (g.lastClientIP c) .clients h hco (hco.forget hc hk) rfl ?_ rfl
  change 0 < (g.counterAt _).clients
  rw [hco.clients]
  omega

theorem Limited.adopt (h : g.Limited maxClients maxConnections) (hi : g.Indexed env) (hco : g.Counted)
    (hc : c ∈ g.clients) (hd : d ∈ g.clients) (hcd : c ≠ d) (hk : g.connection c = some k)
    (hdk : g.connection d = none) : (g.adopt env c d k).Limited maxClients maxConnections := by
  have hpos := clientsFrom_pos hd
  refine limited_decrement (g.lastClientIP d) .clients h hco (hco.adopt hi hc hd hcd hk hdk) rfl ?_ rfl
  change 0 < (g.counterAt _).clients
  rw [hco.clients]
  omega

theorem Limited.register (h : g.Limited maxClients maxConnections) (hi : g.Indexed env)
    (hco : g.Counted) {t : Bytes} (hcl : (g.counterAt (env.realIp k)).clients < maxClients)
    (hcn : (g.counterAt (env.realIp k)).connections < maxConnections) :
    (g.register env k t).Limited maxClients maxConnections := by
  have hco' := hco.register (k := k) (t := t) hi
  intro ip
  have h1 := hco'.clients ip
  have h2 := hco'.connections ip
  by_cases he : ip = env.realIp k
  · subst he
    have hat : (g.register env k t).counterAt (env.realIp k) =
        { clients := (g.counterAt (env.realIp k)).clients + 1
          connections := (g.counterAt (env.realIp k)).connections + 1 } := by
      simp [Registry.register, counterAt]
    rw [hat] at h1 h2
    simp only at h1 h2
    omega
  · have hat : (g.register env k t).counterAt ip = g.counterAt ip :=
      congrArg (fun x => Option.getD x ({} : Counter)) (AList.lookup_insert_ne he)
    rw [hat] at h1 h2
    have h3 := hco.clients ip
    have h4 := hco.connections ip
    have h5 := h ip
    omega

end

section

theorem Retired.unlink (h : g.Retired k) : (g.unlink c).Retired k := by
  unfold Registry.unlink
  cases g.connection c with
  | none => exact h
  | some k' =>
    refine ⟨h.1, ?_⟩
    by_cases hk : k = k'
    · subst hk
      exact AList.lookup_erase _ _
    · exact (AList.lookup_erase_ne hk).trans h.2

theorem Retired.forget (h : g.Retired k) : (g.forget c).Retired k := h

theorem Retired.adopt (h : g.Retired k) {k' : ConnectionPtr} (hi : g.Indexed env) (hc : c ∈ g.clients)
    (hck : g.connection c = some k') : (g.adopt env c d k').Retired k := by
  refine ⟨h.1, ?_⟩
  have hk : k ≠ k' := by
    rintro rfl
    have hlook := (hi.connIff k c).mpr ⟨hc, hck⟩
    rw [h.2] at hlook
    cases hlook
  exact (AList.lookup_insert_ne hk).trans h.2

theorem Retired.register (h : g.Retired k) {k' : ConnectionPtr} {t : Bytes} (hk : k ≠ k') :
    (g.register env k' t).Retired k := ⟨h.1, (AList.lookup_insert_ne hk).trans h.2⟩

end

end Registry
end WsChat
