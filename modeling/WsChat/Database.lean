import WsChat.Credentials

/-! The two backends of the database, where the exceptions of their libraries become a
`DbException`, and what is left of a failed lookup in the reply to a request. -/
namespace WsChat
open Lib ClientsManager

inductive SqlValue where
  | int (n : Int)
  | str (s : Bytes)
  deriving DecidableEq

/-- A field is counted from one by MySQL and from zero by Postgres. -/
structure SqlRow where
  getInt : Nat → Except Unit Int
  getString : Nat → Except Unit Bytes

/-- The answers of the MySQL library while one object of the backend lives: whether the shared
connection exists and is closed, its attempts to connect in their order, and the statement. -/
structure Mysql where
  isClosed : Option (Except Unit Bool)
  connect : Nat → Except Unit Unit
  prepareStatement : Bytes → Except Unit Unit
  set : Nat → SqlValue → Except Unit Unit
  executeQuery : Nat → Except Unit Unit
  next : Except Unit (Option SqlRow)

/-- The answers of the Postgres library, where a query is a transaction. -/
structure Postgres where
  isOpen : Option Bool
  connect : Nat → Except Unit Unit
  exec : Bytes → List SqlValue → Except Unit (List SqlRow)

def ExtFailure.raw {α : Type} (outcome : Except Unit α) : Except ExtFailure α := outcome.mapError fun _ => .std

/-- An exception of a library that is caught and thrown as a `DbException`. -/
def ExtFailure.wrapped {α : Type} (outcome : Except Unit α) : Except ExtFailure α := outcome.mapError fun _ => .db

open ExtFailure

def DatabaseMysql.reconnect (db : Mysql) (attempt : Nat) : Except ExtFailure Unit := raw (db.connect attempt)

def DatabaseMysql.construct (db : Mysql) : Except ExtFailure Unit :=
  match db.isClosed with
  | none => DatabaseMysql.reconnect db 0
  | some closed => do if ← raw closed then DatabaseMysql.reconnect db 0

def DatabaseMysql.prepare (db : Mysql) (sql : Bytes) : Except ExtFailure Unit := wrapped (db.prepareStatement sql)

def SafeStatement.set (db : Mysql) : Nat → List SqlValue → Except ExtFailure Unit
  | _, [] => .ok ()
  | i, value :: rest => do
    raw (db.set i value)
    SafeStatement.set db (i + 1) rest

/-- The loop, when so many tries were made and so many more are allowed after this one. -/
def SafeStatement.retryFrom (db : Mysql) (f : Nat → Except Unit Unit) : Nat → Nat → Except ExtFailure Unit
  | tries, 0 => raw (f tries)
  | tries, left + 1 =>
    match f tries with
    | .ok _ => .ok ()
    | .error _ => do
      DatabaseMysql.reconnect db (tries + 1)
      SafeStatement.retryFrom db f (tries + 1) left

def SafeStatement.retryWithReconnect (db : Mysql) (count : Nat) (f : Nat → Except Unit Unit) :
    Except ExtFailure Unit :=
  SafeStatement.retryFrom db f 0 (count - 1)

def SafeStatement.executeQuery (db : Mysql) : Except ExtFailure Unit :=
  SafeStatement.retryWithReconnect db 3 db.executeQuery

/-- The first row is read, if there is one. -/
def DatabaseMysql.readFirst {α : Type} (db : Mysql) (read : SqlRow → Except Unit α) : Except ExtFailure (Option α) := do
  match ← raw db.next with
  | some row => return some (← raw (read row))
  | none => return none

def DatabaseMysql.lookup {α : Type} (db : Mysql) (sql : Bytes) (params : List SqlValue)
    (read : SqlRow → Except Unit α) : Except ExtFailure (Option α) := do
  DatabaseMysql.construct db
  DatabaseMysql.prepare db sql
  SafeStatement.set db 1 params
  SafeStatement.executeQuery db
  DatabaseMysql.readFirst db read

def DatabaseMysql.apiKeySql : Bytes := utf8 "SELECT user_id FROM api_keys WHERE `key` = ?"
def DatabaseMysql.uidSql : Bytes := utf8 "SELECT login, gid FROM users WHERE id = ?"
def DatabaseMysql.loginSql : Bytes := utf8 "SELECT id, login, gid FROM users WHERE login = ? AND pass = MD5(?)"

def DatabaseMysql.getUserIdByApiKey (db : Mysql) (apiKey : Bytes) : Except ExtFailure (Option Int) :=
  DatabaseMysql.lookup db DatabaseMysql.apiKeySql [.str apiKey] fun row => row.getInt 1

def DatabaseMysql.getUserByUid (db : Mysql) (uid : Int) : Except ExtFailure (Option DbUserInfo) :=
  DatabaseMysql.lookup db DatabaseMysql.uidSql [.int uid] fun row => do
    let gid ← row.getInt 2
    return { uid, gid, login := ← row.getString 1 }

def DatabaseMysql.getUserByLoginAndPassword (db : Mysql) (login password : Bytes) :
    Except ExtFailure (Option DbUserInfo) :=
  DatabaseMysql.lookup db DatabaseMysql.loginSql [.str login, .str password] fun row => do
    let uid ← row.getInt 1
    let gid ← row.getInt 3
    return { uid, gid, login := ← row.getString 2 }

def DatabasePostgres.reconnect (db : Postgres) (attempt : Nat) : Except ExtFailure Unit := raw (db.connect attempt)

def DatabasePostgres.construct (db : Postgres) : Except ExtFailure Unit :=
  match db.isOpen with
  | some true => .ok ()
  | _ => DatabasePostgres.reconnect db 0

def DatabasePostgres.simpleQuery (db : Postgres) (query : Bytes) (params : List SqlValue) :
    Except ExtFailure (List SqlRow) :=
  wrapped (db.exec query params)

/-- A single row is read, and several are an error. -/
def DatabasePostgres.readSingle {α : Type} (read : SqlRow → Except Unit α) :
    List SqlRow → Except ExtFailure (Option α)
  | [] => .ok none
  | [row] => do return some (← raw (read row))
  | _ => .error .db

def DatabasePostgres.lookup {α : Type} (db : Postgres) (query : Bytes) (params : List SqlValue)
    (read : SqlRow → Except Unit α) : Except ExtFailure (Option α) := do
  DatabasePostgres.construct db
  let rows ← DatabasePostgres.simpleQuery db query params
  DatabasePostgres.readSingle read rows

def DatabasePostgres.apiKeySql : Bytes := utf8 "select user_id from api_keys where key = $1"
def DatabasePostgres.uidSql : Bytes := utf8 "select login, gid from users where id = $1"
def DatabasePostgres.loginSql : Bytes := utf8 "select id, login, gid from users where login = $1 and pass = md5($2)"

def DatabasePostgres.getUserIdByApiKey (db : Postgres) (apiKey : Bytes) : Except ExtFailure (Option Int) :=
  DatabasePostgres.lookup db DatabasePostgres.apiKeySql [.str apiKey] fun row => row.getInt 0

def DatabasePostgres.getUserByUid (db : Postgres) (uid : Int) : Except ExtFailure (Option DbUserInfo) :=
  DatabasePostgres.lookup db DatabasePostgres.uidSql [.int uid] fun row => do
    let gid ← row.getInt 1
    return { uid, gid, login := ← row.getString 0 }

def DatabasePostgres.getUserByLoginAndPassword (db : Postgres) (login password : Bytes) :
    Except ExtFailure (Option DbUserInfo) :=
  DatabasePostgres.lookup db DatabasePostgres.loginSql [.str login, .str password] fun row => do
    let uid ← row.getInt 0
    let gid ← row.getInt 2
    return { uid, gid, login := ← row.getString 1 }

/-- The configured backend, with the answers of its library during each lookup of one request
and during the reconnection that follows a failed one. -/
structure Database where
  usePg : Bool
  mysql : Option AuthCall → Mysql
  postgres : Option AuthCall → Postgres

def Database.reconnect (db : Database) : Except ExtFailure Unit :=
  if db.usePg then do
    DatabasePostgres.construct (db.postgres none)
    DatabasePostgres.reconnect (db.postgres none) 1
  else do
    DatabaseMysql.construct (db.mysql none)
    DatabaseMysql.reconnect (db.mysql none) 1

def Database.getUserIdByApiKey (db : Database) (apiKey : Bytes) : Except ExtFailure (Option Int) :=
  let call := some (.userIdByApiKey apiKey)
  if db.usePg then DatabasePostgres.getUserIdByApiKey (db.postgres call) apiKey
  else DatabaseMysql.getUserIdByApiKey (db.mysql call) apiKey

def Database.getUserByUid (db : Database) (uid : Int) : Except ExtFailure (Option DbUserInfo) :=
  let call := some (.userByUid uid)
  if db.usePg then DatabasePostgres.getUserByUid (db.postgres call) uid
  else DatabaseMysql.getUserByUid (db.mysql call) uid

def Database.getUserByLoginAndPassword (db : Database) (login password : Bytes) :
    Except ExtFailure (Option DbUserInfo) :=
  let call := some (.userByLoginAndPassword login password)
  if db.usePg then DatabasePostgres.getUserByLoginAndPassword (db.postgres call) login password
  else DatabaseMysql.getUserByLoginAndPassword (db.mysql call) login password

def Database.services (db : Database) (sv : AuthServices) : AuthServices :=
  { sv with
    getUserIdByApiKey := db.getUserIdByApiKey
    getUserByUid := db.getUserByUid
    getUserByLoginAndPassword := db.getUserByLoginAndPassword
    reconnect := db.reconnect }

section
variable {α β : Type}

theorem ExtFailure.raw_ne (outcome : Except Unit α) : raw outcome ≠ .error .db := by
  intro h
  cases outcome <;> cases h

theorem ExtFailure.raw_eq_ok_iff {outcome : Except Unit α} {a : α} : raw outcome = .ok a ↔ outcome = .ok a := by
  cases outcome <;> simp [raw, Except.mapError]

theorem ExtFailure.wrapped_db_iff {outcome : Except Unit α} : wrapped outcome = .error .db ↔ outcome = .error () := by
  cases outcome <;> simp [wrapped, Except.mapError]

theorem ExtFailure.bind_db_iff {x : Except ExtFailure α} {f : α → Except ExtFailure β} (hx : x ≠ .error .db) :
    x >>= f = .error .db ↔ ∃ a, x = .ok a ∧ f a = .error .db := by
  cases x with
  | ok a => exact ⟨fun h => ⟨a, rfl, h⟩, fun ⟨_, ha, h⟩ => (by cases ha; exact h)⟩
  | error e => exact ⟨fun h => absurd (congrArg Except.error (Except.error.inj h)) hx, fun ⟨_, ha, _⟩ => (by cases ha)⟩

theorem ExtFailure.bind_db_iff' {x : Except ExtFailure α} {f : α → Except ExtFailure β}
    (hf : ∀ a, f a ≠ .error .db) : x >>= f = .error .db ↔ x = .error .db := by
  cases x with
  | ok a => exact ⟨fun h => absurd h (hf a), fun h => (by cases h)⟩
  | error e => exact ⟨fun h => congrArg Except.error (Except.error.inj h), fun h => (by cases h; rfl)⟩

theorem ExtFailure.bind_ne {x : Except ExtFailure α} {f : α → Except ExtFailure β} (hx : x ≠ .error .db)
    (hf : ∀ a, f a ≠ .error .db) : x >>= f ≠ .error .db :=
  fun h => hx ((bind_db_iff' hf).mp h)

end

/-- The constructor finds a connection, or makes one. -/
def Mysql.Connects (db : Mysql) : Prop :=
  db.isClosed = some (.ok false) ∨ (db.isClosed = none ∨ db.isClosed = some (.ok true)) ∧ db.connect 0 = .ok ()

def Postgres.Connects (db : Postgres) : Prop := db.isOpen = some true ∨ db.connect 0 = .ok ()

theorem DatabaseMysql.construct_ne (db : Mysql) : DatabaseMysql.construct db ≠ .error .db := by
  unfold DatabaseMysql.construct DatabaseMysql.reconnect
  cases db.isClosed with
  | none => exact raw_ne _
  | some closed =>
    refine bind_ne (raw_ne closed) fun closed => ?_
    cases closed with
    | true => exact raw_ne _
    | false => exact fun h => by cases h

theorem DatabaseMysql.construct_ok_iff (db : Mysql) : DatabaseMysql.construct db = .ok () ↔ db.Connects := by
  unfold DatabaseMysql.construct DatabaseMysql.reconnect Mysql.Connects
  cases db.isClosed with
  | none => simp [raw_eq_ok_iff]
  | some closed =>
    cases closed with
    | error _ => simp [raw, Except.mapError, bind, Except.bind]
    | ok closed =>
      cases closed with
      | false => simp [raw, Except.mapError, bind, Except.bind, pure, Except.pure]
      | true =>
        have hraw : raw (.ok true : Except Unit Bool) = .ok true := rfl
        simp only [hraw, bind, Except.bind, if_true, raw_eq_ok_iff]
        simp

theorem DatabasePostgres.construct_ne (db : Postgres) : DatabasePostgres.construct db ≠ .error .db := by
  unfold DatabasePostgres.construct DatabasePostgres.reconnect
  split
  · exact fun h => by cases h
  · exact raw_ne _

theorem DatabasePostgres.construct_ok_iff (db : Postgres) : DatabasePostgres.construct db = .ok () ↔ db.Connects := by
  unfold DatabasePostgres.construct DatabasePostgres.reconnect Postgres.Connects
  split
  · rename_i h
    simp [h]
  · rename_i h
    have hclosed : db.isOpen ≠ some true := h
    simp [raw_eq_ok_iff, hclosed]

theorem SafeStatement.set_ne (db : Mysql) (params : List SqlValue) :
    ∀ i, SafeStatement.set db i params ≠ .error .db := by
  induction params with
  | nil =>
    intro i h
    cases h
  | cons value rest ih => exact fun i => bind_ne (raw_ne _) fun _ => ih (i + 1)

theorem SafeStatement.retryFrom_ne (db : Mysql) (f : Nat → Except Unit Unit) (left : Nat) :
    ∀ tries, SafeStatement.retryFrom db f tries left ≠ .error .db := by
  induction left with
  | zero => exact fun tries => raw_ne _
  | succ left ih =>
    intro tries
    unfold SafeStatement.retryFrom
    cases f tries with
    | ok _ => exact fun h => by cases h
    | error _ => exact bind_ne (raw_ne _) fun _ => ih (tries + 1)

theorem DatabaseMysql.readFirst_ne {α : Type} (db : Mysql) (read : SqlRow → Except Unit α) :
    DatabaseMysql.readFirst db read ≠ .error .db := by
  refine bind_ne (raw_ne _) fun row => ?_
  cases row with
  | none => exact fun h => by cases h
  | some row => exact bind_ne (raw_ne _) fun _ h => by cases h

theorem DatabaseMysql.lookup_db_iff {α : Type} (db : Mysql) (sql : Bytes) (params : List SqlValue)
    (read : SqlRow → Except Unit α) :
    DatabaseMysql.lookup db sql params read = .error .db ↔
      db.Connects ∧ db.prepareStatement sql = .error () := by
  unfold DatabaseMysql.lookup
  rw [bind_db_iff (DatabaseMysql.construct_ne db)]
  have hrest : ∀ _ : Unit, (do
      SafeStatement.set db 1 params
      SafeStatement.executeQuery db
      DatabaseMysql.readFirst db read) ≠ .error .db := by
    intro _
    refine bind_ne (SafeStatement.set_ne db params 1) fun _ => ?_
    exact bind_ne (SafeStatement.retryFrom_ne db _ _ 0) fun _ => DatabaseMysql.readFirst_ne db read
  constructor
  · rintro ⟨_, hcon, h⟩
    exact ⟨(DatabaseMysql.construct_ok_iff db).mp hcon, wrapped_db_iff.mp ((bind_db_iff' hrest).mp h)⟩
  · rintro ⟨hcon, h⟩
    exact ⟨(), (DatabaseMysql.construct_ok_iff db).mpr hcon, (bind_db_iff' hrest).mpr (wrapped_db_iff.mpr h)⟩

theorem DatabasePostgres.readSingle_db_iff {α : Type} (read : SqlRow → Except Unit α) (rows : List SqlRow) :
    DatabasePostgres.readSingle read rows = .error .db ↔ 1 < rows.length := by
  cases rows with
  | nil => exact ⟨fun h => (by cases h), fun h => (by simp at h)⟩
  | cons row rest =>
    cases rest with
    | nil =>
      have hne : DatabasePostgres.readSingle read [row] ≠ .error .db := bind_ne (raw_ne _) fun _ h => by cases h
      exact ⟨fun h => absurd h hne, fun h => (by simp at h)⟩
    | cons second rest => exact ⟨fun _ => (by simp), fun _ => rfl⟩

def Postgres.Refuses (db : Postgres) (query : Bytes) (params : List SqlValue) : Prop :=
  db.exec query params = .error () ∨ ∃ rows, db.exec query params = .ok rows ∧ 1 < rows.length

theorem DatabasePostgres.lookup_db_iff {α : Type} (db : Postgres) (query : Bytes) (params : List SqlValue)
    (read : SqlRow → Except Unit α) :
    DatabasePostgres.lookup db query params read = .error .db ↔ db.Connects ∧ db.Refuses query params := by
  have hquery : (do
      let rows ← DatabasePostgres.simpleQuery db query params
      DatabasePostgres.readSingle read rows) = .error .db ↔ db.Refuses query params := by
    unfold DatabasePostgres.simpleQuery Postgres.Refuses
    cases db.exec query params with
    | error _ => exact ⟨fun _ => .inl rfl, fun _ => rfl⟩
    | ok rows =>
      have hwrapped : wrapped (.ok rows : Except Unit (List SqlRow)) = .ok rows := rfl
      simp only [hwrapped, bind, Except.bind, DatabasePostgres.readSingle_db_iff]
      simp
  unfold DatabasePostgres.lookup
  rw [bind_db_iff (DatabasePostgres.construct_ne db)]
  constructor
  · rintro ⟨_, hcon, h⟩
    exact ⟨(DatabasePostgres.construct_ok_iff db).mp hcon, hquery.mp h⟩
  · rintro ⟨hcon, h⟩
    exact ⟨(), (DatabasePostgres.construct_ok_iff db).mpr hcon, hquery.mpr h⟩

/-- The lookup fails where the backend throws a `DbException`. -/
def Database.Signals (db : Database) (call : AuthCall) (sqlMysql sqlPostgres : Bytes) (params : List SqlValue) : Prop :=
  if db.usePg then (db.postgres (some call)).Connects ∧ (db.postgres (some call)).Refuses sqlPostgres params
  else (db.mysql (some call)).Connects ∧ (db.mysql (some call)).prepareStatement sqlMysql = .error ()

def AuthCall.Signals (db : Database) : AuthCall → Prop
  | .userIdByApiKey apiKey =>
    db.Signals (.userIdByApiKey apiKey) DatabaseMysql.apiKeySql DatabasePostgres.apiKeySql [.str apiKey]
  | .userByUid uid => db.Signals (.userByUid uid) DatabaseMysql.uidSql DatabasePostgres.uidSql [.int uid]
  | .userByLoginAndPassword login password =>
    db.Signals (.userByLoginAndPassword login password) DatabaseMysql.loginSql DatabasePostgres.loginSql
      [.str login, .str password]
  | _ => False

/-- After a failed lookup the handler gets a connection, and a new one at once. -/
def Database.Recovers (db : Database) : Prop :=
  if db.usePg then (db.postgres none).Connects ∧ (db.postgres none).connect 1 = .ok ()
  else (db.mysql none).Connects ∧ (db.mysql none).connect 1 = .ok ()

theorem Database.reconnect_ok_iff (db : Database) : db.reconnect = .ok () ↔ db.Recovers := by
  have hbind : ∀ (x : Except ExtFailure Unit) (attempt : Except Unit Unit),
      (do x; raw attempt) = .ok () ↔ x = .ok () ∧ attempt = .ok () := by
    intro x attempt
    cases x with
    | ok _ => simpa [bind, Except.bind] using raw_eq_ok_iff
    | error _ => simp [bind, Except.bind]
  unfold Database.reconnect Database.Recovers DatabasePostgres.reconnect DatabaseMysql.reconnect
  split
  · rw [hbind, DatabasePostgres.construct_ok_iff]
  · rw [hbind, DatabaseMysql.construct_ok_iff]

theorem AuthCall.fails_db_iff (db : Database) (sv : AuthServices) (call : AuthCall) :
    call.Fails (db.services sv) .db ↔ call.Signals db := by
  cases call with
  | redisGet _ | gateAuth _ _ => exact Iff.rfl
  | userIdByApiKey apiKey =>
    simp only [AuthCall.Fails, AuthCall.Signals, Database.Signals, Database.services, Database.getUserIdByApiKey]
    split
    · exact DatabasePostgres.lookup_db_iff _ _ _ _
    · exact DatabaseMysql.lookup_db_iff _ _ _ _
  | userByUid uid =>
    simp only [AuthCall.Fails, AuthCall.Signals, Database.Signals, Database.services, Database.getUserByUid]
    split
    · exact DatabasePostgres.lookup_db_iff _ _ _ _
    · exact DatabaseMysql.lookup_db_iff _ _ _ _
  | userByLoginAndPassword login password =>
    simp only [AuthCall.Fails, AuthCall.Signals, Database.Signals, Database.services,
      Database.getUserByLoginAndPassword]
    split
    · exact DatabasePostgres.lookup_db_iff _ _ _ _
    · exact DatabaseMysql.lookup_db_iff _ _ _ _

theorem AuthCall.Fails.unique {sv : AuthServices} {call : AuthCall} {e e' : ExtFailure} (h : call.Fails sv e)
    (h' : call.Fails sv e') : e = e' := by
  cases call with
  | redisGet _ | gateAuth _ _ => exact h.elim
  | userIdByApiKey _ | userByUid _ | userByLoginAndPassword _ _ =>
    exact Except.error.inj (Eq.trans (Eq.symm h) h')

/-- One reply is sent, an error of the database, and the client stays who it was. -/
def PacketAuth.Reported (c : ClientPtr) (k : ConnectionPtr) (p : PacketAuth) (w w' : World) : Prop :=
  (∃ e : PacketError, w'.sent = w.sent ++ [(k, .packet (.error e))] ∧ e.source = .auth ∧ e.code = .databaseError ∧
    e.sequenceId = p.sequenceId) ∧
  (w'.clientAt c).identity = (w.clientAt c).identity

/-- A lookup that failed is reported exactly when the backend threw a `DbException` for it and
the handler of that exception could reconnect. -/
theorem auth_database_failure_reported_iff (env : Env) (db : Database) (sv : AuthServices) (w : World) (c : ClientPtr)
    (k : ConnectionPtr) (p : PacketAuth) (call : AuthCall) (e : ExtFailure)
    (hk : (w.clientAt c).connection = some k) (ht : sv.construct = .ok () → PacketAuth.target w c p = none)
    (hcall : call ∈ PacketAuth.calls env (db.services sv) w c p) (hfails : call.Fails (db.services sv) e) :
    PacketAuth.Reported c k p w (PacketAuth.process env (db.services sv) w c p) ↔ call.Signals db ∧ db.Recovers := by
  obtain ⟨r, user, he, hfair, -, -, huser⟩ := PacketAuth.process_normal env (db.services sv) w c p hk ht
  have hnone : user = none := huser call hcall e hfails
  have hr : r = .error (.failed e) := hfair.failed call hcall e hfails
  subst hnone hr
  have hsent : (PacketAuth.process env (db.services sv) w c p).sent =
      w.sent ++ [(k, .packet (PacketAuth.response (db.services sv) w p c (.error (.failed e))))] := by
    rw [he]
    rfl
  constructor
  · rintro ⟨⟨err, hsent', -⟩, -⟩
    have herr : PacketAuth.response (db.services sv) w p c (.error (.failed e)) = .error err := by
      rw [hsent] at hsent'
      have := List.append_cancel_left hsent'
      simpa using this
    cases e with
    | std => cases herr
    | db =>
      refine ⟨(AuthCall.fails_db_iff db sv call).mp hfails, (Database.reconnect_ok_iff db).mp ?_⟩
      unfold PacketAuth.response at herr
      cases hrec : db.reconnect with
      | ok _ => rfl
      | error _ =>
        have hservices : (db.services sv).reconnect = db.reconnect := rfl
        rw [hservices, hrec] at herr
        cases herr
  · rintro ⟨hsignals, hrecovers⟩
    cases hfails.unique ((AuthCall.fails_db_iff db sv call).mpr hsignals)
    have hrec : (db.services sv).reconnect = .ok () := (Database.reconnect_ok_iff db).mpr hrecovers
    let err : PacketError := {
      source := .auth, sequenceId := p.sequenceId, code := .databaseError
      info := utf8 "Ошибка подключения к БД при авторизации!" }
    have herr : PacketAuth.response (db.services sv) w p c (.error (.failed .db)) = .error err := by
      unfold PacketAuth.response
      rw [hrec]
      rfl
    refine ⟨⟨err, ?_, rfl, rfl, rfl⟩, ?_⟩
    · rw [hsent, herr]
    · rw [he]
      rfl

def Sample.database (prepared queried : Except Unit Unit) : Database where
  usePg := false
  mysql := fun _ => {
    isClosed := some (.ok false)
    connect := fun _ => .ok ()
    prepareStatement := fun _ => prepared
    set := fun _ _ => .ok ()
    executeQuery := fun _ => queried
    next := .ok none }
  postgres := fun _ => { isOpen := none, connect := fun _ => .error (), exec := fun _ _ => .error () }

def Sample.credentials : PacketAuth := { name := utf8 "login", password := utf8 "secret" }

theorem auth_database_failure_reported_iff_prepare :
    let w := run Sample.surroundings [Sample.opens 0 1 97 Sample.mem_a]
    let db := Sample.database (.error ()) (.ok ())
    PacketAuth.Reported ⟨0⟩ ⟨1⟩ Sample.credentials w
      (PacketAuth.process Sample.surroundings (db.services Sample.bob) w ⟨0⟩ Sample.credentials) := by
  intro w db
  refine (auth_database_failure_reported_iff Sample.surroundings db Sample.bob w ⟨0⟩ ⟨1⟩ Sample.credentials
    (.userByLoginAndPassword (utf8 "login") (utf8 "secret")) .db (by decide +kernel) (fun _ => by decide +kernel)
    (by decide +kernel) (by rfl)).mpr ⟨?_, ?_⟩
  · exact ⟨.inl rfl, rfl⟩
  · exact ⟨.inl rfl, rfl⟩

/-- A query that fails three times goes unreported. -/
theorem auth_database_failure_reported_query :
    let w := run Sample.surroundings [Sample.opens 0 1 97 Sample.mem_a]
    let db := Sample.database (.ok ()) (.error ())
    let w' := PacketAuth.process Sample.surroundings (db.services Sample.bob) w ⟨0⟩ Sample.credentials
    let call := AuthCall.userByLoginAndPassword (utf8 "login") (utf8 "secret")
    call ∈ PacketAuth.calls Sample.surroundings (db.services Sample.bob) w ⟨0⟩ Sample.credentials ∧
      call.Fails (db.services Sample.bob) .std ∧
      w'.sent = [(⟨1⟩, .packet (.auth { Sample.credentials with name := [], token := (w.clientAt ⟨0⟩).token }))] ∧
      ¬ PacketAuth.Reported ⟨0⟩ ⟨1⟩ Sample.credentials w w' := by
  intro w db w' call
  have hsent : w'.sent =
      [(⟨1⟩, .packet (.auth { Sample.credentials with name := [], token := (w.clientAt ⟨0⟩).token }))] := by
    decide +kernel
  have hnone : w.sent = [] := by decide +kernel
  refine ⟨by decide +kernel, by rfl, hsent, ?_⟩
  rintro ⟨⟨e, hreported, -⟩, -⟩
  rw [hsent, hnone] at hreported
  cases hreported

end WsChat
