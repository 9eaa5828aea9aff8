import Mathlib.Data.List.Nodup
import Selfhost.Lib.Slice

/-!
# TOML documents

A document is a sequence of expressions, each on one or more lines of its own: key-value pairs and the headers of
tables and of arrays of tables. What the expressions say is one table. How the text of a single expression is read, and
which sequences are refused, is left to a grammar; a parser is left open but for the table that it answers.
-/

namespace Selfhost.Lib.Toml

inductive Value where
  | string (s : Str)
  | integer (n : Int)
  | boolean (b : Bool)
  /-- A number with a fraction, or a date. -/
  | other (text : Str)
  | array (items : List Value)
  | table (fields : List (Str × Value))

abbrev Table := List (Str × Value)

/-! ## Tables -/

@[simp] def get (key : Str) : Table → Option Value
  | [] => none
  | (k, v) :: rest => if k = key then some v else get key rest

@[simp] def set (key : Str) (value : Value) : Table → Table
  | [] => [(key, value)]
  | (k, v) :: rest => if k = key then (k, value) :: rest else (k, v) :: set key value rest

@[simp] theorem get_set_self (key : Str) (value : Value) (t : Table) : get key (set key value t) = some value := by
  induction t with
  | nil => simp [set, get]
  | cons field rest ih =>
      obtain ⟨k, v⟩ := field
      by_cases h : k = key
      · simp [set, get, h]
      · simp [set, get, h, ih]

theorem get_set_ne {key key' : Str} (h : key' ≠ key) (value : Value) (t : Table) :
    get key' (set key value t) = get key' t := by
  induction t with
  | nil => simp [set, get, Ne.symm h]
  | cons field rest ih =>
      obtain ⟨k, v⟩ := field
      by_cases hk : k = key
      · have hne : k ≠ key' := fun hsame => h (hsame.symm.trans hk)
        simp [set, get, hk, Ne.symm h]
      · simp [set, get, hk, ih]

/-- The table under a key; no value and an empty table are read alike. -/
def sub (key : Str) (t : Table) : Table :=
  match get key t with
  | some (.table u) => u
  | _ => []

def IsTable : Option Value → Prop
  | none | some (.table _) => True
  | _ => False

/-! ## Where an expression writes -/

/-- A path goes through the last of an array of tables. -/
@[simp] def onLast (f : Table → Table) : List Value → List Value
  | [] => []
  | [.table t] => [.table (f t)]
  | [v] => [v]
  | v :: w :: rest => v :: onLast f (w :: rest)

def enter (f : Table → Table) : Option Value → Value
  | none => .table (f [])
  | some (.table t) => .table (f t)
  | some (.array items) => .array (onLast f items)
  | some v => v

@[simp] def modify (g : Option Value → Value) : List Str → Str → Table → Table
  | [], name, t => set name (g (get name t)) t
  | k :: path, name, t => set k (enter (modify g path name) (get k t)) t

/-- A new table at the end of an array of tables. -/
def pushed : Option Value → Value
  | none => .array [.table []]
  | some (.array items) => .array (items ++ [.table []])
  | some v => v

inductive Expr where
  /-- An empty line or a comment. -/
  | blank
  | keyval (path : List Str) (name : Str) (value : Value)
  | header (path : List Str) (name : Str)
  | arrayHeader (path : List Str) (name : Str)

structure State where
  root : Table
  current : List Str

def step (s : State) : Expr → State
  | .blank => s
  | .keyval path name value => { s with root := modify (fun _ => value) (s.current ++ path) name s.root }
  | .header path name => ⟨modify (enter id) path name s.root, path ++ [name]⟩
  | .arrayHeader path name => ⟨modify pushed path name s.root, path ++ [name]⟩

def run (es : List Expr) (s : State) : State := es.foldl step s

def build (es : List Expr) : Table := (run es ⟨[], []⟩).root

@[simp] theorem run_nil (s : State) : run [] s = s := rfl

@[simp] theorem run_cons (e : Expr) (es : List Expr) (s : State) : run (e :: es) s = run es (step s e) := rfl

theorem run_append (es es' : List Expr) (s : State) : run (es ++ es') s = run es' (run es s) := List.foldl_append

/-! ## Documents -/

/-- How the text of one expression is read, and which sequences of expressions are documents. -/
structure Grammar where
  expr : Str → Option Expr
  accepts : List Expr → Bool

/-- The lines of an expression. -/
structure Chunk where
  lines : List Str
  expr : Expr

def joined (lines : List Str) : Str := ['\n'].intercalate lines

/-- An expression ends with the first line that makes it complete. -/
def chunksFrom (G : Grammar) : List Str → List Str → Option (List Chunk)
  | [], [] => some []
  | _ :: _, [] => none
  | taken, line :: rest =>
      match G.expr (joined (taken ++ [line])) with
      | some e => (chunksFrom G [] rest).map (⟨taken ++ [line], e⟩ :: ·)
      | none => chunksFrom G (taken ++ [line]) rest

def chunks (G : Grammar) (text : Str) : Option (List Chunk) := chunksFrom G [] (text.splitOn '\n')

/-- The table of a document, put together from its expressions. -/
def assembled (G : Grammar) (text : Str) : Option Table := do
  let cs ← chunks G text
  if G.accepts (cs.map Chunk.expr) then some (build (cs.map Chunk.expr)) else none

/-- A parser of documents, and the grammar that it is for. -/
structure Reader extends Grammar where
  parse : Str → Option Table

/-- What the format says of a whole document: it is read expression by expression, and each header and key takes its
place in the table of those before it. -/
def Assembles (R : Reader) : Prop := ∀ text, R.parse text = assembled R.toGrammar text

/-- Lines that are complete with the last of them and not before. -/
structure Whole (G : Grammar) (c : Chunk) : Prop where
  nonempty : c.lines ≠ []
  complete : G.expr (joined c.lines) = some c.expr
  first : ∀ init rest, c.lines = init ++ rest → init ≠ [] → rest ≠ [] → G.expr (joined init) = none

theorem chunksFrom_cons (G : Grammar) (taken : List Str) (line : Str) (rest : List Str) :
    chunksFrom G taken (line :: rest) =
      match G.expr (joined (taken ++ [line])) with
      | some e => (chunksFrom G [] rest).map (⟨taken ++ [line], e⟩ :: ·)
      | none => chunksFrom G (taken ++ [line]) rest := by
  cases taken <;> rfl

theorem chunksFrom_take {G : Grammar} {e : Expr} (ls : List Str) (rest : List Str) :
    ∀ taken, (taken ++ ls) ≠ [] → ls ≠ [] → G.expr (joined (taken ++ ls)) = some e →
      (∀ init more, ls = init ++ more → init ≠ [] → more ≠ [] → G.expr (joined (taken ++ init)) = none) →
      chunksFrom G taken (ls ++ rest) = (chunksFrom G [] rest).map (⟨taken ++ ls, e⟩ :: ·) := by
  induction ls with
  | nil => intro taken _ hne; exact absurd rfl hne
  | cons line ls ih =>
      intro taken _ _ hcomplete hfirst
      rw [List.cons_append, chunksFrom_cons]
      cases ls with
      | nil => rw [hcomplete, List.nil_append]
      | cons next ls =>
          have hnone : G.expr (joined (taken ++ [line])) = none :=
            hfirst [line] (next :: ls) rfl (by simp) (by simp)
          have hih := ih (taken ++ [line]) (by simp) (by simp) (by simpa using hcomplete) (by
            intro init more hsplit hinit hmore
            have := hfirst (line :: init) more (by rw [hsplit]; rfl) (by simp) hmore
            simpa using this)
          have hsame : taken ++ [line] ++ next :: ls = taken ++ line :: next :: ls := by simp
          rw [hsame] at hih
          rw [hnone]
          exact hih

theorem chunksFrom_whole {G : Grammar} {c : Chunk} (h : Whole G c) (rest : List Str) :
    chunksFrom G [] (c.lines ++ rest) = (chunksFrom G [] rest).map (c :: ·) :=
  chunksFrom_take c.lines rest [] (by simpa using h.nonempty) h.nonempty h.complete h.first

/-- Whole chunks, one after another, are read as they are. -/
theorem chunksFrom_wholes {G : Grammar} {cs : List Chunk} (h : ∀ c ∈ cs, Whole G c) (rest : List Str) :
    chunksFrom G [] (cs.flatMap Chunk.lines ++ rest) = (chunksFrom G [] rest).map (cs ++ ·) := by
  induction cs with
  | nil => simp
  | cons c cs ih =>
      rw [List.flatMap_cons, List.append_assoc, chunksFrom_whole (h c List.mem_cons_self),
        ih fun d hd => h d (List.mem_cons_of_mem c hd), Option.map_map]
      rfl

/-- What is read is lines in whole chunks. -/
theorem chunksFrom_some {G : Grammar} (ls : List Str) : ∀ taken cs, chunksFrom G taken ls = some cs →
    (∀ init more, taken = init ++ more → init ≠ [] → G.expr (joined init) = none) →
    cs.flatMap Chunk.lines = taken ++ ls ∧ ∀ c ∈ cs, Whole G c := by
  induction ls with
  | nil =>
      intro taken cs h _
      cases taken with
      | nil =>
          cases h
          exact ⟨rfl, by simp⟩
      | cons t ts => cases h
  | cons line ls ih =>
      intro taken cs h hopen
      rw [chunksFrom_cons] at h
      cases hexpr : G.expr (joined (taken ++ [line])) with
      | none =>
          rw [hexpr] at h
          obtain ⟨hlines, hwhole⟩ := ih _ cs h (by
            intro init more hsplit hne
            rcases List.eq_nil_or_concat more with rfl | ⟨more', last, rfl⟩
            · rw [List.append_nil] at hsplit
              rw [← hsplit]
              exact hexpr
            · have hparts : taken = init ++ more' := by
                have := congrArg List.dropLast hsplit
                simpa [← List.append_assoc] using this
              exact hopen init more' hparts hne)
          refine ⟨?_, hwhole⟩
          rw [hlines]
          simp
      | some e =>
          rw [hexpr] at h
          obtain ⟨tail, htail, rfl⟩ := Option.map_eq_some_iff.mp h
          obtain ⟨hlines, hwhole⟩ := ih [] tail htail (by
            intro init more hsplit hne
            exact absurd (List.append_eq_nil_iff.mp hsplit.symm).1 hne)
          refine ⟨by simp [hlines], ?_⟩
          intro c hc
          rcases List.mem_cons.mp hc with rfl | hc
          · refine ⟨by simp, hexpr, ?_⟩
            intro init more hsplit hinit hmore
            obtain ⟨more', last, rfl⟩ := (List.eq_nil_or_concat more).resolve_left hmore
            have hparts : taken = init ++ more' := by
              have := congrArg List.dropLast hsplit
              simpa [← List.append_assoc] using this
            exact hopen init more' hparts hinit
          · exact hwhole c hc

theorem chunksFrom_iff {G : Grammar} {ls : List Str} {cs : List Chunk} :
    chunksFrom G [] ls = some cs ↔ cs.flatMap Chunk.lines = ls ∧ ∀ c ∈ cs, Whole G c := by
  constructor
  · intro h
    exact chunksFrom_some ls [] cs h fun init more hsplit hne =>
      absurd (List.append_eq_nil_iff.mp hsplit.symm).1 hne
  · rintro ⟨rfl, hwhole⟩
    have hread := chunksFrom_wholes hwhole []
    rw [List.append_nil] at hread
    rw [hread]
    simp [chunksFrom]

end Selfhost.Lib.Toml

/-! # What an expression writes at a path, and what it leaves -/

namespace Selfhost.Lib.Toml

/-! ## The value at a path -/

@[simp] def getAt : List Str → Str → Table → Option Value
  | [], name, t => get name t
  | k :: path, name, t => getAt path name (sub k t)

/-- The path goes through tables only. -/
def Clear : List Str → Table → Prop
  | [], _ => True
  | k :: path, t => IsTable (get k t) ∧ Clear path (sub k t)

/-- Two tables are the same everywhere but at a path. -/
def OffEq : List Str → Str → Table → Table → Prop
  | [], name, t, t' => ∀ key, key ≠ name → get key t = get key t'
  | k :: path, name, t, t' => (∀ key, key ≠ k → get key t = get key t') ∧ OffEq path name (sub k t) (sub k t')

theorem OffEq.refl (path : List Str) (name : Str) (t : Table) : OffEq path name t t := by
  induction path generalizing t with
  | nil => exact fun _ _ => rfl
  | cons k path ih => exact ⟨fun _ _ => rfl, ih (sub k t)⟩

theorem OffEq.trans {path : List Str} {name : Str} {t t' t'' : Table} (h : OffEq path name t t')
    (h' : OffEq path name t' t'') : OffEq path name t t'' := by
  induction path generalizing t t' t'' with
  | nil => exact fun key hkey => (h key hkey).trans (h' key hkey)
  | cons k path ih => exact ⟨fun key hkey => (h.1 key hkey).trans (h'.1 key hkey), ih h.2 h'.2⟩

theorem sub_set_self (k : Str) (u t : Table) : sub k (set k (.table u) t) = u := by
  simp [sub]

theorem enter_get {k : Str} {t : Table} (h : IsTable (get k t)) (f : Table → Table) :
    enter f (get k t) = .table (f (sub k t)) := by
  unfold sub
  cases hget : get k t with
  | none => rfl
  | some v =>
      rw [hget] at h
      cases v with
      | table u => rfl
      | string s => exact h.elim
      | integer n => exact h.elim
      | boolean b => exact h.elim
      | other text => exact h.elim
      | array items => exact h.elim

/-! ## Writing at a path -/

/-- Writing below a path is writing at it. -/
theorem modify_append (g : Option Value → Value) (path : List Str) (name : Str) (below : List Str) (n : Str) (t : Table) :
    modify g (path ++ name :: below) n t = modify (enter (modify g below n)) path name t := by
  induction path generalizing t with
  | nil => rfl
  | cons k path ih => simp only [List.cons_append, modify, funext ih]

theorem clear_at {path : List Str} {t : Table} (h : Clear path t) (g : Option Value → Value) (name : Str) :
    Clear path (modify g path name t) := by
  induction path generalizing t with
  | nil => trivial
  | cons k path ih =>
      rw [modify, enter_get h.1]
      refine ⟨by simp [IsTable], ?_⟩
      rw [sub_set_self]
      exact ih h.2

theorem getAt_at {path : List Str} {t : Table} (h : Clear path t) (g : Option Value → Value) (name : Str) :
    getAt path name (modify g path name t) = some (g (getAt path name t)) := by
  induction path generalizing t with
  | nil => simp [getAt, modify]
  | cons k path ih =>
      rw [modify, enter_get h.1, getAt, sub_set_self, ih h.2]
      rfl

theorem offEq_at {path : List Str} {t : Table} (h : Clear path t) (g : Option Value → Value) (name : Str) :
    OffEq path name t (modify g path name t) := by
  induction path generalizing t with
  | nil => exact fun key hkey => (get_set_ne hkey _ t).symm
  | cons k path ih =>
      rw [modify, enter_get h.1]
      refine ⟨fun key hkey => (get_set_ne hkey _ t).symm, ?_⟩
      rw [sub_set_self]
      exact ih h.2

/-! ## The last of an array of tables -/

theorem onLast_concat (f : Table → Table) (items : List Value) (t : Table) :
    onLast f (items ++ [.table t]) = items ++ [.table (f t)] := by
  induction items with
  | nil => rfl
  | cons v items ih =>
      cases items with
      | nil => simp [onLast]
      | cons w items =>
          rw [List.cons_append, List.cons_append, onLast, ← List.cons_append, ih]
          rfl

theorem enter_concat (f : Table → Table) (items : List Value) (t : Table) :
    enter f (some (.array (items ++ [.table t]))) = .array (items ++ [.table (f t)]) := by
  rw [enter, onLast_concat]

/-- An expression of a table, written in a document that has the table at a path. -/
def Expr.under (path : List Str) : Expr → Expr
  | .blank => .blank
  | .keyval p n v => .keyval p n v
  | .header p n => .header (path ++ p) n
  | .arrayHeader p n => .arrayHeader (path ++ p) n

/-- Where a document stands with respect to an array of tables at a path: `s` is the same document as `t` but for the
array, whose last table has come to the state `entry`. -/
structure Within (path : List Str) (name : Str) (t : Table) (items : List Value) (entry s : State) : Prop where
  clear : Clear path s.root
  offEq : OffEq path name t s.root
  value : getAt path name s.root = some (.array (items ++ [.table entry.root]))
  current : s.current = path ++ name :: entry.current

theorem Within.modify {path : List Str} {name : Str} {t : Table} {items : List Value} {entry s : State}
    (h : Within path name t items entry s) (g : Option Value → Value) (p : List Str) (n : Str) (c : List Str) :
    Within path name t items ⟨Toml.modify g p n entry.root, c⟩
      ⟨Toml.modify g (path ++ name :: p) n s.root, path ++ name :: c⟩ := by
  rw [modify_append]
  refine ⟨clear_at h.clear _ name, h.offEq.trans (offEq_at h.clear _ name), ?_, rfl⟩
  rw [getAt_at h.clear, h.value, enter_concat]

theorem Within.step {path : List Str} {name : Str} {t : Table} {items : List Value} {entry s : State}
    (h : Within path name t items entry s) (e : Expr) :
    Within path name t items (Toml.step entry e) (Toml.step s (e.under (path ++ [name]))) := by
  cases e with
  | blank => exact h
  | keyval p n v =>
      have hm := h.modify (fun _ => v) (entry.current ++ p) n entry.current
      simp only [Toml.step, Expr.under, h.current]
      simpa using hm
  | header p n =>
      have hm := h.modify (enter id) p n (p ++ [n])
      simp only [Toml.step, Expr.under]
      simpa using hm
  | arrayHeader p n =>
      have hm := h.modify pushed p n (p ++ [n])
      simp only [Toml.step, Expr.under]
      simpa using hm

/-- The expressions of the last table of an array change that table as they would change a document. -/
theorem Within.run {path : List Str} {name : Str} {t : Table} {items : List Value} {entry s : State}
    (h : Within path name t items entry s) (es : List Expr) :
    Within path name t items (Toml.run es entry) (Toml.run (es.map (Expr.under (path ++ [name]))) s) := by
  induction es generalizing entry s with
  | nil => exact h
  | cons e es ih => exact ih (h.step e)

/-- The items of an array, or none where there is no value. -/
def items : Option Value → List Value
  | some (.array l) => l
  | _ => []

def IsArray : Option Value → Prop
  | none | some (.array _) => True
  | _ => False

theorem pushed_eq {v : Option Value} (h : IsArray v) : pushed v = .array (items v ++ [.table []]) := by
  cases v with
  | none => rfl
  | some v =>
      cases v with
      | array l => rfl
      | table u => exact h.elim
      | string s => exact h.elim
      | integer n => exact h.elim
      | boolean b => exact h.elim
      | other text => exact h.elim

/-- The header of an array of tables opens a new last table. -/
theorem Within.push {path : List Str} {name : Str} {s : State} (hclear : Clear path s.root)
    (harray : IsArray (getAt path name s.root)) :
    Within path name s.root (items (getAt path name s.root)) ⟨[], []⟩ (Toml.step s (.arrayHeader path name)) := by
  refine ⟨clear_at hclear pushed name, offEq_at hclear pushed name, ?_, rfl⟩
  rw [Toml.step, getAt_at hclear, pushed_eq harray]

/-! ## Tables of optional fields -/

def fieldsOf (fields : List (Str × Option Value)) : Table := fields.filterMap fun f => f.2.map fun v => (f.1, v)

def keyvals (t : Table) : List Expr := t.map fun f => .keyval [] f.1 f.2

theorem keyvals_cons (key : Str) (v : Value) (t : Table) :
    keyvals ((key, v) :: t) = .keyval [] key v :: keyvals t := rfl

theorem get_eq_none {key : Str} {t : Table} (h : key ∉ t.map Prod.fst) : get key t = none := by
  induction t with
  | nil => rfl
  | cons field t ih =>
      obtain ⟨k, v⟩ := field
      rw [List.map_cons, List.mem_cons, not_or] at h
      rw [get, if_neg (Ne.symm h.1), ih h.2]

theorem set_of_not_mem {key : Str} {t : Table} (h : key ∉ t.map Prod.fst) (v : Value) :
    set key v t = t ++ [(key, v)] := by
  induction t with
  | nil => rfl
  | cons field t ih =>
      obtain ⟨k, w⟩ := field
      rw [List.map_cons, List.mem_cons, not_or] at h
      rw [set, if_neg (Ne.symm h.1), ih h.2]
      rfl

theorem set_set (key : Str) (v w : Value) (t : Table) : set key v (set key w t) = set key v t := by
  induction t with
  | nil => simp [set]
  | cons field t ih =>
      obtain ⟨k, u⟩ := field
      by_cases h : k = key
      · simp [set, h]
      · simp [set, h, ih]

theorem not_mem_fieldsOf {key : Str} {fields : List (Str × Option Value)} (h : key ∉ fields.map Prod.fst) :
    key ∉ (fieldsOf fields).map Prod.fst := by
  intro hmem
  obtain ⟨field, hfield, rfl⟩ := List.mem_map.mp hmem
  obtain ⟨f, hf, hv⟩ := List.mem_filterMap.mp hfield
  obtain ⟨v, -, rfl⟩ := Option.map_eq_some_iff.mp hv
  exact h (List.mem_map.mpr ⟨f, hf, rfl⟩)

theorem nodup_fieldsOf {fields : List (Str × Option Value)} (h : (fields.map Prod.fst).Nodup) :
    ((fieldsOf fields).map Prod.fst).Nodup := by
  induction fields with
  | nil => exact List.nodup_nil
  | cons f fields ih =>
      obtain ⟨k, v⟩ := f
      obtain ⟨hnot, hrest⟩ := List.nodup_cons.mp h
      cases v with
      | none => exact ih hrest
      | some v => exact List.nodup_cons.mpr ⟨not_mem_fieldsOf hnot, ih hrest⟩

/-- Each key has the value that it was given, or none. -/
theorem get_fieldsOf {fields : List (Str × Option Value)} (h : (fields.map Prod.fst).Nodup) {key : Str}
    {v : Option Value} (hmem : (key, v) ∈ fields) : get key (fieldsOf fields) = v := by
  induction fields with
  | nil => cases hmem
  | cons f fields ih =>
      obtain ⟨k, w⟩ := f
      obtain ⟨hnot, hrest⟩ := List.nodup_cons.mp h
      rcases List.mem_cons.mp hmem with heq | htail
      · cases heq
        cases v with
        | none =>
            have hskip : fieldsOf ((key, none) :: fields) = fieldsOf fields := rfl
            rw [hskip]
            exact get_eq_none (not_mem_fieldsOf hnot)
        | some v => simp [fieldsOf, get]
      · have hne : k ≠ key := fun hsame => hnot (hsame ▸ List.mem_map.mpr ⟨(key, v), htail, rfl⟩)
        cases w with
        | none => exact ih hrest htail
        | some w =>
            have hstep : get key (fieldsOf ((k, some w) :: fields)) = get key (fieldsOf fields) := by
              simp [fieldsOf, get, hne]
            rw [hstep, ih hrest htail]

theorem get_of_mem {t : Table} (h : (t.map Prod.fst).Nodup) {key : Str} {v : Value} (hmem : (key, v) ∈ t) :
    get key t = some v := by
  induction t with
  | nil => cases hmem
  | cons field t ih =>
      obtain ⟨k, w⟩ := field
      obtain ⟨hnot, hrest⟩ := List.nodup_cons.mp h
      rcases List.mem_cons.mp hmem with heq | htail
      · cases heq
        simp [get]
      · have hne : k ≠ key := fun hsame => hnot (hsame ▸ List.mem_map.mpr ⟨(key, v), htail, rfl⟩)
        rw [get, if_neg hne, ih hrest htail]

theorem run_keyvals {t fields : Table} (h : ((t ++ fields).map Prod.fst).Nodup) :
    run (keyvals fields) ⟨t, []⟩ = ⟨t ++ fields, []⟩ := by
  induction fields generalizing t with
  | nil => simp [keyvals]
  | cons field fields ih =>
      obtain ⟨k, v⟩ := field
      have hnot : k ∉ t.map Prod.fst := by
        intro hmem
        rw [List.map_append, List.map_cons] at h
        exact (List.nodup_append'.mp h).2.2 hmem List.mem_cons_self
      have hset : step ⟨t, []⟩ (.keyval [] k v) = ⟨t ++ [(k, v)], []⟩ := by
        simp [step, modify, set_of_not_mem hnot]
      have hih := ih (t := t ++ [(k, v)]) (by simpa using h)
      rw [keyvals_cons, run_cons, hset, hih, List.append_assoc, List.singleton_append]

/-- Key-value pairs under the header of a table. -/
theorem run_keyvals_sub {k : Str} {t fields : Table} (h : (fields.map Prod.fst).Nodup)
    (hnone : get k t = none) (c : List Str) :
    run (.header [] k :: keyvals fields) ⟨t, c⟩ = ⟨set k (.table fields) t, [k]⟩ := by
  have hopen : step ⟨t, c⟩ (.header [] k) = ⟨set k (.table []) t, [k]⟩ := by
    simp [step, modify, hnone, enter]
  have hfill : ∀ u fields : Table, ((u ++ fields).map Prod.fst).Nodup →
      run (keyvals fields) ⟨set k (.table u) t, [k]⟩ = ⟨set k (.table (u ++ fields)) t, [k]⟩ := by
    intro u fields
    induction fields generalizing u with
    | nil => simp [keyvals]
    | cons field fields ih =>
        intro hnodup
        obtain ⟨key, v⟩ := field
        have hnot : key ∉ u.map Prod.fst := by
          intro hmem
          rw [List.map_append, List.map_cons] at hnodup
          exact (List.nodup_append'.mp hnodup).2.2 hmem List.mem_cons_self
        have hset : step ⟨set k (.table u) t, [k]⟩ (.keyval [] key v) = ⟨set k (.table (u ++ [(key, v)])) t, [k]⟩ := by
          simp [step, modify, enter, set_set, set_of_not_mem hnot]
        have hih := ih (u ++ [(key, v)]) (by simpa using hnodup)
        rw [keyvals_cons, run_cons, hset, hih, List.append_assoc, List.singleton_append]
  rw [run_cons, hopen, hfill [] fields (by simpa using h)]
  rfl

end Selfhost.Lib.Toml
