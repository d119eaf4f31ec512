import WsChat.Lib.Redis

/-! The login gate and the Redis wrapper it counts with, over whole runs of calls. -/
namespace WsChat
open Lib Lib.Redis

/-- `get` into an `int` variable: what it returns, and what the variable then holds. -/
def Redis.get (st : Store) (now : Int) (key : Bytes) (val : Int32) : Bool × Int32 :=
  match (command st now .get [key]).1 with
  | .bulk reply => (true, readInt val reply)
  | _ => (false, val)

/-- The command that expires is sent without the key. -/
def Redis.set (st : Store) (now : Int) (key : Bytes) (value : Int32) (expiration : Int := 0) :
    Bool × Store :=
  let (reply, st) :=
    if 0 < expiration then command st now .setex [decimal expiration, decimal value.toInt]
    else command st now .set [key, decimal value.toInt]
  (reply = .ok, st)

def Gate.mdkey (name key : Bytes) : Bytes := utf8 "gate-" ++ name ++ utf8 "-" ++ key

/-- `_tries`. Nothing sets `cnt` before the store is asked, and `++cnt` wraps. -/
def Gate.tries (st : Store) (now : Int) (name key : Bytes) (tries : Int32) (timeout : Int) (unset : Int32) :
    Bool × Store :=
  let mdkey := Gate.mdkey name key
  let (found, cnt) := Redis.get st now mdkey unset
  let cnt := if found then cnt else 0
  let cnt := cnt + 1
  if tries < cnt then (false, st)
  else (true, (Redis.set st now mdkey cnt timeout).2)

def Gate.resetTries (st : Store) (now : Int) (name key : Bytes) : Store :=
  let mdkey := Gate.mdkey name key
  let (found, cnt) := Redis.get st now mdkey 0
  if found && 0 < cnt then (Redis.set st now mdkey 0 1).2 else st

def Gate.auth (st : Store) (now : Int) (ip : Bytes) (reset : Bool) (unset : Int32) : Bool × Store :=
  if reset then (true, Gate.resetTries st now (utf8 "auth") ip)
  else Gate.tries st now (utf8 "auth") ip 4 (5 * 60) unset

/-- A call, with what its counter holds before anything is read into it. -/
structure Gate.Call where
  time : Int
  ip : Bytes
  reset : Bool := false
  unset : Int32 := 0

namespace Gate

def answers : Store → List Call → List (Call × Bool)
  | _, [] => []
  | st, call :: calls =>
    let (allowed, st) := auth st call.time call.ip call.reset call.unset
    (call, allowed) :: answers st calls

def Call.asks (call : Call) (ip : Bytes) (start : Int) : Bool :=
  call.ip = ip && !call.reset && start ≤ call.time && call.time < start + 5 * 60 * 1000

/-- No reset for the address falls into the five minutes. -/
def Undisturbed (calls : List Call) (ip : Bytes) (start : Int) : Prop :=
  ∀ call ∈ calls, call.ip = ip → call.reset → ¬ (start ≤ call.time ∧ call.time < start + 5 * 60 * 1000)

/-- At most four calls for the address are allowed in undisturbed five minutes. -/
def Limits (st : Store) (calls : List Call) (ip : Bytes) : Prop :=
  ∀ start, Undisturbed calls ip start →
    ((answers st calls).countP fun x => x.1.asks ip start && x.2) ≤ 4

def Isolates (st : Store) (calls : List Call) (ip : Bytes) : Prop :=
  (answers st calls).filter (fun x => x.1.ip = ip) = answers st (calls.filter fun call => call.ip = ip)

/-- What the gate has counted for the address of a call. -/
def count (st : Store) (call : Call) : Int32 :=
  let (found, cnt) := Redis.get st call.time (mdkey (utf8 "auth") call.ip) call.unset
  if found then cnt else 0

/-- The counts that let a call pass: those below four, and the largest, which overflows when one more is counted. -/
def Passes (n : Int32) : Bool := n < 4 || n = Int32.maxValue

end Gate

/-- Nothing is ever stored with a time to live. -/
theorem Redis.set_expiring (st : Store) (now : Int) (key : Bytes) (value : Int32) {expiration : Int}
    (h : 0 < expiration) : Redis.set st now key value expiration = (false, st) := by
  simp [Redis.set, h, command]

namespace Gate
variable {st : Store} {calls : List Call} {ip : Bytes}

theorem passes_iff (n : Int32) : Passes n = true ↔ ¬ 4 < n + 1 := by
  have hlow : -2 ^ 31 ≤ n.toInt := n.le_toInt
  have hhigh : n.toInt < 2 ^ 31 := n.toInt_lt
  have hmax : n = Int32.maxValue ↔ n.toInt = 2 ^ 31 - 1 := by
    rw [← Int32.toInt_inj]
    rfl
  have hsucc : (n + 1).toInt = (n.toInt + 1).bmod (2 ^ 32) := Int32.toInt_add n 1
  have hfour : (4 : Int32).toInt = 4 := rfl
  unfold Passes
  rw [Bool.or_eq_true, decide_eq_true_iff, decide_eq_true_iff, hmax, Int32.lt_iff_toInt_lt, Int32.lt_iff_toInt_lt,
    hsucc, hfour, Int.bmod_def]
  omega

theorem tries_eq (st : Store) (now : Int) (name key : Bytes) (n unset : Int32) {timeout : Int} (h : 0 < timeout) :
    tries st now name key n timeout unset =
      (let (found, cnt) := Redis.get st now (mdkey name key) unset
      decide (¬ n < (if found then cnt else 0) + 1), st) := by
  unfold tries
  dsimp only
  rw [Redis.set_expiring _ _ _ _ h]
  generalize (if (Redis.get st now (mdkey name key) unset).1 then
    (Redis.get st now (mdkey name key) unset).2 else 0) + 1 = cnt
  by_cases hfull : n < cnt
  · rw [if_pos hfull, decide_eq_false (not_not.mpr hfull)]
  · rw [if_neg hfull, decide_eq_true hfull]

theorem resetTries_eq (st : Store) (now : Int) (name key : Bytes) : resetTries st now name key = st := by
  unfold resetTries
  dsimp only
  rw [Redis.set_expiring _ _ _ _ (by decide), ite_self]

theorem auth_eq (st : Store) (call : Call) : auth st call.time call.ip call.reset call.unset =
    (call.reset || Passes (count st call), st) := by
  unfold auth
  cases call.reset with
  | true => simp [resetTries_eq]
  | false =>
    have hpasses : Passes (count st call) = decide (¬ 4 < count st call + 1) := by
      rw [Bool.eq_iff_iff, passes_iff, decide_eq_true_iff]
    rw [if_neg Bool.false_ne_true, tries_eq _ _ _ _ _ _ (by decide), hpasses, Bool.false_or]
    rfl

theorem answers_eq (st : Store) (calls : List Call) :
    answers st calls = calls.map fun call => (call, call.reset || Passes (count st call)) := by
  induction calls with
  | nil => rfl
  | cons call calls ih => rw [answers, auth_eq, List.map_cons, ← ih]

theorem isolates (st : Store) (calls : List Call) (ip : Bytes) : Isolates st calls ip := by
  unfold Isolates
  rw [answers_eq, answers_eq, List.filter_map]
  rfl

theorem limits_iff : Limits st calls ip ↔ ∀ start, Undisturbed calls ip start →
    (calls.countP fun call => call.asks ip start && Passes (count st call)) ≤ 4 := by
  unfold Limits
  refine forall₂_congr fun start _ => ?_
  rw [answers_eq, List.countP_map]
  have hsame : ∀ call ∈ calls, ((fun x : Call × Bool => x.1.asks ip start && x.2) ∘ fun call =>
      (call, call.reset || Passes (count st call))) call =
      (call.asks ip start && Passes (count st call)) := by
    intro call _
    unfold Call.asks
    cases hreset : call.reset with
    | true => simp [hreset]
    | false => simp [hreset]
  rw [List.countP_congr fun call hcall => by rw [hsame call hcall]]

end Gate

/-- The gate keeps its limit exactly where nobody tries it: where undisturbed five minutes never see more than four
calls that the counts with which the store starts let pass. -/
theorem gate_limits_iff (st : Store) (calls : List Gate.Call) (ip : Bytes) :
    (Gate.Limits st calls ip ∧ Gate.Isolates st calls ip) ↔
      ∀ start, Gate.Undisturbed calls ip start →
        (calls.countP fun call => call.asks ip start && Gate.Passes (Gate.count st call)) ≤ 4 := by
  rw [and_iff_left (Gate.isolates st calls ip)]
  exact Gate.limits_iff

/-- Five calls at once are all allowed. -/
theorem gate_allows_five :
    let calls : List Gate.Call := List.replicate 5 { time := 0, ip := utf8 "10.0.0.1" }
    ¬ (Gate.Limits ∅ calls (utf8 "10.0.0.1") ∧ Gate.Isolates ∅ calls (utf8 "10.0.0.1")) := by
  intro calls h
  have hfree : Gate.Undisturbed calls (utf8 "10.0.0.1") 0 := by
    intro call hcall _ hreset
    rw [List.eq_of_mem_replicate hcall] at hreset
    cases hreset
  have hfive : ((Gate.answers ∅ calls).countP fun x => x.1.asks (utf8 "10.0.0.1") 0 && x.2) = 5 := by
    decide +kernel
  have hfour := h.1 0 hfree
  omega

end WsChat
