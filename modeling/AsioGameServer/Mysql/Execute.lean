import AsioGameServer.Mysql.Pool

namespace AsioGameServer.mysql

/-- A stored result set. Every row has one cell for each field; `none` is SQL's
`NULL`, a null pointer in the row. -/
structure MYSQL_RES where
  fields : List String
  rows : List (List (Option String))
  cells : ∀ row ∈ rows, row.length = fields.length

/-- What the server answers to one statement: whether `mysql_query` succeeds, and
the result `mysql_store_result` returns. -/
structure Reply where
  mysql_query : Bool
  mysql_store_result : Option MYSQL_RES

/-- `std::map<const std::string, std::vector<const char*>>`, in the order of its keys. -/
abbrev QMap := List (String × List (Option String))

/-- `std::vector<std::vector<std::pair<std::string, std::string>>>`. -/
abbrev QVector := List (List (String × String))

/-- `std::map::insert` of a column without cells; a key that is there stays. -/
def QMap.insert (name : String) : QMap → QMap
  | [] => [(name, [])]
  | (key, column) :: rest =>
    if name < key then (name, []) :: (key, column) :: rest
    else if name = key then (key, column) :: rest
    else (key, column) :: QMap.insert name rest

/-- Appends the cells of a row to the columns of the map, in the order of its keys. -/
def QMap.push_row (results : QMap) (row : List (Option String)) : QMap :=
  List.zipWith (fun entry cell => (entry.1, entry.2 ++ [cell])) results row

/-- A row of an `executeSql_Vector` result. Assigning a null cell to a
`std::string` is undefined behaviour and has no result. -/
def clone_row (fields : List String) (row : List (Option String)) : Option (List (String × String)) :=
  (fields.zip row).mapM fun entry => entry.2.map (entry.1, ·)

/-- The map `executeSql_Map` builds from a result set. -/
def MYSQL_RES.map (res : MYSQL_RES) : QMap :=
  res.rows.foldl QMap.push_row (res.fields.foldl (fun results name => QMap.insert name results) [])

/-- The rows `executeSql_Vector` appends to its result. -/
def MYSQL_RES.vector (res : MYSQL_RES) : Option QVector := res.rows.mapM (clone_row res.fields)

/-- The first cell of the first row. An empty result set has a null row, and a null
cell is assigned to a `std::string`; both are undefined behaviour and have no
result. -/
def MYSQL_RES.first_cell (res : MYSQL_RES) : Option String :=
  res.rows.head?.bind fun row => row.head?.bind id

namespace MysqlPool

/-- `MysqlPool::executeSql_Map`, from the moment `getContinueConnect` has returned. -/
def executeSql_Map (p : MysqlPool) (conn : Option MYSQL) (reply : Reply) : QMap × MysqlPool :=
  match conn with
  | some conn =>
    let results :=
      if reply.mysql_query then
        match reply.mysql_store_result with
        | some res => res.map
        | none => []
      else []
    (results, p.close (some conn))
  | none => ([], p)

/-- `MysqlPool::executeSql_Vector(sql)`, from the moment `getContinueConnect` has
returned. -/
def executeSql_Vector (p : MysqlPool) (conn : Option MYSQL) (reply : Reply) :
    Option (QVector × MysqlPool) :=
  match conn with
  | some conn =>
    let result :=
      if reply.mysql_query then
        match reply.mysql_store_result with
        | some res => res.vector
        | none => some []
      else some []
    result.map (·, p.close (some conn))
  | none => some ([], p)

/-- `MysqlPool::executeSql_Vector(sql, result)`, from the moment
`getContinueConnect` has returned. Only the branch of a failed query closes. -/
def executeSql_Vector_result (p : MysqlPool) (conn : Option MYSQL) (reply : Reply) (result : QVector) :
    Option ((Bool × QVector) × MysqlPool) :=
  match conn with
  | some conn =>
    if reply.mysql_query then
      match reply.mysql_store_result with
      | some res => res.vector.map fun rows => ((true, result ++ rows), p)
      | none => some ((true, result), p)
    else some ((false, result), p.close (some conn))
  | none => some ((false, result), p)

/-- `MysqlPool::executeSql(sql)`, from the moment `getOneConnect` has returned. -/
def executeSql (p : MysqlPool) (conn : Option MYSQL) (reply : Reply) : Bool × MysqlPool :=
  if conn.isSome ∧ reply.mysql_query then (true, p.close conn) else (false, p.close conn)

/-- `MysqlPool::executeSql(sql, result)`, from the moment `getContinueConnect` has
returned. -/
def executeSql_result (p : MysqlPool) (conn : Option MYSQL) (reply : Reply) (result : String) :
    Option ((Bool × String) × MysqlPool) :=
  if conn.isSome ∧ reply.mysql_query then
    match reply.mysql_store_result with
    | some res => res.first_cell.map fun text => ((true, text), p.close conn)
    | none => some ((true, result), p.close conn)
  else some ((false, result), p.close conn)

end MysqlPool

/-- A call of one of the execute operations, with the object it returns into. -/
inductive Operation where
  | executeSql_Map
  | executeSql_Vector
  | executeSql_Vector_result (result : QVector)
  | executeSql
  | executeSql_result (result : String)
deriving DecidableEq, Repr

/-- What a call returns. -/
inductive Answer where
  | map (results : QMap)
  | vector (result : QVector)
  | vector_result (ok : Bool) (result : QVector)
  | status (ok : Bool)
  | text_result (ok : Bool) (result : String)
deriving DecidableEq, Repr

/-- All operations but `executeSql(sql)` wait for a connection in
`getContinueConnect`. -/
def Operation.waits : Operation → Bool
  | .executeSql => false
  | _ => true

def MysqlPool.execute (p : MysqlPool) (conn : Option MYSQL) (reply : Reply) :
    Operation → Option (Answer × MysqlPool)
  | .executeSql_Map => some ((p.executeSql_Map conn reply).map .map id)
  | .executeSql_Vector => (p.executeSql_Vector conn reply).map (Prod.map .vector id)
  | .executeSql_Vector_result result =>
    (p.executeSql_Vector_result conn reply result).map (Prod.map (fun r => .vector_result r.1 r.2) id)
  | .executeSql => some ((p.executeSql conn reply).map .status id)
  | .executeSql_result result =>
    (p.executeSql_result conn reply result).map (Prod.map (fun r => .text_result r.1 r.2) id)

/-- The call that keeps its connection: `executeSql_Vector(sql, result)` after a
query that succeeded. -/
def Operation.keeps (op : Operation) (reply : Reply) : Prop :=
  match op with
  | .executeSql_Vector_result _ => reply.mysql_query = true
  | _ => False

instance (reply : Reply) : (op : Operation) → Decidable (op.keeps reply)
  | .executeSql_Vector_result _ => inferInstanceAs (Decidable (reply.mysql_query = true))
  | .executeSql_Map | .executeSql_Vector | .executeSql | .executeSql_result _ =>
    inferInstanceAs (Decidable False)

/-- Every other call with a connection puts it back once, on each of its paths. -/
theorem execute_pool {p p' : MysqlPool} {conn : MYSQL} {reply : Reply} {op : Operation} {answer : Answer}
    (h : p.execute (some conn) reply op = some (answer, p')) :
    p' = if op.keeps reply then p else p.close (some conn) := by
  cases op with
  | executeSql_Map =>
    obtain ⟨_, rfl⟩ := Prod.mk.inj (Option.some.inj h)
    rfl
  | executeSql_Vector =>
    simp only [MysqlPool.execute, MysqlPool.executeSql_Vector, Option.map_map, Option.map_eq_some_iff] at h
    obtain ⟨_, _, h⟩ := h
    obtain ⟨_, rfl⟩ := Prod.mk.inj h
    rfl
  | executeSql_Vector_result result =>
    obtain ⟨_, hcall, h⟩ := Option.map_eq_some_iff.mp h
    obtain ⟨_, rfl⟩ := Prod.mk.inj h
    simp only [MysqlPool.executeSql_Vector_result] at hcall
    split_ifs at hcall with hquery
    · rw [if_pos (show Operation.keeps (.executeSql_Vector_result result) reply from hquery)]
      split at hcall
      · obtain ⟨_, _, rfl⟩ := Option.map_eq_some_iff.mp hcall
        rfl
      · obtain rfl := Option.some.inj hcall
        rfl
    · rw [if_neg (show ¬ Operation.keeps (.executeSql_Vector_result result) reply from hquery)]
      obtain rfl := Option.some.inj hcall
      rfl
  | executeSql =>
    have hpool : p' = (p.executeSql (some conn) reply).2 := (congrArg Prod.snd (Option.some.inj h)).symm
    rw [hpool, if_neg (show ¬ Operation.keeps .executeSql reply from id), MysqlPool.executeSql]
    split_ifs <;> rfl
  | executeSql_result result =>
    obtain ⟨_, hcall, h⟩ := Option.map_eq_some_iff.mp h
    obtain ⟨_, rfl⟩ := Prod.mk.inj h
    rw [if_neg (show ¬ Operation.keeps (.executeSql_result result) reply from id)]
    simp only [MysqlPool.executeSql_result] at hcall
    split_ifs at hcall with hquery
    · split at hcall
      · obtain ⟨_, _, rfl⟩ := Option.map_eq_some_iff.mp hcall
        rfl
      · obtain rfl := Option.some.inj hcall
        rfl
    · obtain rfl := Option.some.inj hcall
      rfl

/-- A call that got no connection leaves the pool alone. -/
theorem execute_pool_none {p p' : MysqlPool} {reply : Reply} {op : Operation} {answer : Answer}
    (h : p.execute none reply op = some (answer, p')) : p' = p := by
  cases op <;> exact (congrArg Prod.snd (Option.some.inj h)).symm

end AsioGameServer.mysql
