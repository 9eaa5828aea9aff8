import Mathlib.Algebra.BigOperators.Group.List.Basic
import Mathlib.Algebra.Order.Ring.Int
import Mathlib.Data.BitVec
import Mathlib.Data.List.Basic
import Mathlib.Data.List.Count
import Mathlib.Data.List.Forall2
import Mathlib.Data.String.Basic
import Mathlib.Data.UInt

/-!
# Directories of named entries

A directory is the list of its entries, each a file or a directory again. `get` follows a path, `alter`
changes one directory of a tree, and `view` is what can be seen of a tree from outside: at each path
nothing, a directory, or a file with its contents. Operations are specified by the view they leave behind.
-/

namespace Selfhost.Lib

variable {κ α : Type}

/-- The entries of one directory, in the order in which they are read. -/
inductive Forest (κ α : Type) where
  | nil
  | file (name : κ) (contents : α) (rest : Forest κ α)
  | dir (name : κ) (inside rest : Forest κ α)
  deriving DecidableEq, Repr

/-- What stands under a name. -/
inductive Entry (κ α : Type) where
  | file (contents : α)
  | dir (inside : Forest κ α)
  deriving DecidableEq, Repr

namespace Forest

/-- The names in a directory. -/
@[simp] def names : Forest κ α → List κ
  | .nil => []
  | .file n _ rest => n :: names rest
  | .dir n _ rest => n :: names rest

/-- A directory with one more entry. -/
def insert (k : κ) (e : Entry κ α) (f : Forest κ α) : Forest κ α :=
  match e with
  | .file a => .file k a f
  | .dir inside => .dir k inside f

@[simp] theorem names_insert (k : κ) (e : Entry κ α) (f : Forest κ α) :
    (f.insert k e).names = k :: f.names := by
  cases e <;> rfl

/-- A directory is built up entry by entry. -/
theorem insert_induction {motive : Forest κ α → Prop} (nil : motive .nil)
    (insert : ∀ n e rest, motive rest → motive (rest.insert n e)) (f : Forest κ α) : motive f := by
  induction f with
  | nil => exact nil
  | file n a rest ih => exact insert n (.file a) rest ih
  | dir n inside rest _ ih => exact insert n (.dir inside) rest ih

variable [DecidableEq κ]

/-- The entry under a name. -/
@[simp] def find (k : κ) : Forest κ α → Option (Entry κ α)
  | .nil => none
  | .file n a rest => if n = k then some (.file a) else find k rest
  | .dir n inside rest => if n = k then some (.dir inside) else find k rest

/-- A directory without the entries under a name. -/
@[simp] def erase (k : κ) : Forest κ α → Forest κ α
  | .nil => .nil
  | .file n a rest => if n = k then erase k rest else .file n a (erase k rest)
  | .dir n inside rest => if n = k then erase k rest else .dir n inside (erase k rest)

/-- Changes the directory under a name. -/
@[simp] def mapDir (k : κ) (g : Forest κ α → Forest κ α) : Forest κ α → Forest κ α
  | .nil => .nil
  | .file n a rest => if n = k then .file n a rest else .file n a (mapDir k g rest)
  | .dir n inside rest => if n = k then .dir n (g inside) rest else .dir n inside (mapDir k g rest)

/-- The entry at the end of a path. -/
@[simp] def get (f : Forest κ α) : List κ → Option (Entry κ α)
  | [] => some (.dir f)
  | k :: p =>
      match f.find k with
      | none => none
      | some (.file a) => if p = [] then some (.file a) else none
      | some (.dir inside) => get inside p

/-- Changes the directory at the end of a path. -/
@[simp] def alter (g : Forest κ α → Forest κ α) : List κ → Forest κ α → Forest κ α
  | [], f => g f
  | k :: p, f => f.mapDir k (alter g p)

end Forest

/-- A path holds nothing, a directory or a file. -/
def Entry.kind : Entry κ α → Option α
  | .file a => some a
  | .dir _ => none

variable [DecidableEq κ]

/-- What a tree holds at a path: `none` for nothing, `some none` for a directory, else a file. -/
def Forest.view (f : Forest κ α) (p : List κ) : Option (Option α) := (f.get p).map Entry.kind

/-- What an entry holds below itself. -/
def Entry.view : Entry κ α → List κ → Option (Option α)
  | .file a, p => if p = [] then some (some a) else none
  | .dir f, p => f.view p

namespace Forest

/-! ## One directory -/

@[simp] theorem find_insert (k k' : κ) (e : Entry κ α) (f : Forest κ α) :
    (f.insert k e).find k' = if k = k' then some e else f.find k' := by
  cases e <;> rfl

theorem find_eq_none_iff {k : κ} {f : Forest κ α} : f.find k = none ↔ k ∉ f.names := by
  induction f with
  | nil => simp [find, names]
  | file n a rest ih =>
      by_cases h : n = k
      · simp [find, names, h]
      · simp [find, names, h, ih, Ne.symm h]
  | dir n inside rest _ ih =>
      by_cases h : n = k
      · simp [find, names, h]
      · simp [find, names, h, ih, Ne.symm h]

@[simp] theorem find_erase_self (k : κ) (f : Forest κ α) : (f.erase k).find k = none := by
  induction f with
  | nil => rfl
  | file n a rest ih =>
      by_cases h : n = k
      · simp [erase, h, ih]
      · simp [erase, find, h, ih]
  | dir n inside rest _ ih =>
      by_cases h : n = k
      · simp [erase, h, ih]
      · simp [erase, find, h, ih]

theorem find_erase_ne {k k' : κ} (hne : k' ≠ k) (f : Forest κ α) : (f.erase k).find k' = f.find k' := by
  induction f with
  | nil => rfl
  | file n a rest ih =>
      by_cases h : n = k
      · subst h
        simp [erase, find, ih, Ne.symm hne]
      · simp [erase, find, h, ih]
  | dir n inside rest _ ih =>
      by_cases h : n = k
      · subst h
        simp [erase, find, ih, Ne.symm hne]
      · simp [erase, find, h, ih]

theorem find_mapDir_self {k : κ} {g : Forest κ α → Forest κ α} {f inside : Forest κ α}
    (h : f.find k = some (.dir inside)) : (f.mapDir k g).find k = some (.dir (g inside)) := by
  induction f with
  | nil => cases h
  | file n a rest ih =>
      by_cases hn : n = k
      · simp [find, hn] at h
      · simp only [find, if_neg hn] at h
        simp [mapDir, find, hn, ih h]
  | dir n c rest _ ih =>
      by_cases hn : n = k
      · simp only [find, if_pos hn, Option.some.injEq, Entry.dir.injEq] at h
        simp [mapDir, find, hn, h]
      · simp only [find, if_neg hn] at h
        simp [mapDir, find, hn, ih h]

theorem find_mapDir_of_not_dir {k : κ} {g : Forest κ α → Forest κ α} {f : Forest κ α}
    (h : ∀ inside, f.find k ≠ some (.dir inside)) : f.mapDir k g = f := by
  induction f with
  | nil => rfl
  | file n a rest ih =>
      by_cases hn : n = k
      · simp [mapDir, hn]
      · simp only [find, if_neg hn] at h
        simp [mapDir, hn, ih h]
  | dir n c rest _ ih =>
      by_cases hn : n = k
      · exact absurd (by simp [find, hn]) (h c)
      · simp only [find, if_neg hn] at h
        simp [mapDir, hn, ih h]

theorem find_mapDir_ne {k k' : κ} (hne : k' ≠ k) (g : Forest κ α → Forest κ α) (f : Forest κ α) :
    (f.mapDir k g).find k' = f.find k' := by
  induction f with
  | nil => rfl
  | file n a rest ih =>
      by_cases hn : n = k
      · simp [mapDir, hn]
      · simp [mapDir, find, hn, ih]
  | dir n c rest _ ih =>
      by_cases hn : n = k
      · subst hn
        simp [mapDir, find, Ne.symm hne]
      · simp [mapDir, find, hn, ih]

/-! ## Paths -/

@[simp] theorem get_nil (f : Forest κ α) : f.get [] = some (.dir f) := by
  rfl

theorem get_cons_dir {k : κ} {p : List κ} {f inside : Forest κ α} (h : f.find k = some (.dir inside)) :
    f.get (k :: p) = inside.get p := by
  simp [get, h]

theorem get_singleton (k : κ) (f : Forest κ α) : f.get [k] = f.find k := by
  simp only [get]
  split
  · rename_i h
    rw [h]
  · rename_i a h
    simp [h]
  · rename_i inside h
    rw [h]

/-- A path below another is followed in two parts. -/
theorem get_append {f inside : Forest κ α} {p q : List κ} (h : f.get p = some (.dir inside)) :
    f.get (p ++ q) = inside.get q := by
  induction p generalizing f with
  | nil =>
      cases h
      rfl
  | cons k p ih =>
      simp only [get] at h
      split at h
      · cases h
      · split at h <;> cases h
      · rename_i c hc
        rw [List.cons_append, get_cons_dir hc]
        exact ih h

theorem get_concat {f inside : Forest κ α} {p : List κ} {k : κ} (h : f.get p = some (.dir inside)) :
    f.get (p ++ [k]) = inside.find k := by
  rw [get_append h, get_singleton]

/-- Whatever has an entry below it is a directory. -/
theorem get_dir_of_append {f : Forest κ α} {p q : List κ} {e : Entry κ α} (h : f.get (p ++ q) = some e)
    (hq : q ≠ []) : ∃ inside, f.get p = some (.dir inside) := by
  induction p generalizing f with
  | nil => exact ⟨f, rfl⟩
  | cons k p ih =>
      simp only [List.cons_append, get] at h ⊢
      split at h
      · cases h
      · split at h
        · rename_i hpq
          exact absurd (List.append_eq_nil_iff.mp hpq).2 hq
        · cases h
      · exact ih h

/-! ## Changing one directory of a tree -/

/-- `g` changes nothing but the entry under `k`. -/
def OnlyAt (k : κ) (g : Forest κ α → Forest κ α) : Prop := ∀ f k', k' ≠ k → (g f).find k' = f.find k'

theorem onlyAt_insert (k : κ) (e : Entry κ α) : OnlyAt k (insert k e) := by
  intro f k' hne
  rw [find_insert, if_neg (Ne.symm hne)]

theorem onlyAt_erase (k : κ) : OnlyAt k (erase k : Forest κ α → Forest κ α) :=
  fun f _ hne => find_erase_ne hne f

theorem onlyAt_mapDir (k : κ) (g : Forest κ α → Forest κ α) : OnlyAt k (mapDir k g) :=
  fun f _ hne => find_mapDir_ne hne g f

theorem alter_concat (g : Forest κ α → Forest κ α) (d : List κ) (k : κ) (f : Forest κ α) :
    f.alter g (d ++ [k]) = f.alter (mapDir k g) d := by
  induction d generalizing f with
  | nil => rfl
  | cons k' d ih =>
      rw [List.cons_append, alter, alter]
      congr 1
      exact funext ih

theorem mapDir_mapDir (k : κ) (g h : Forest κ α → Forest κ α) (f : Forest κ α) :
    (f.mapDir k g).mapDir k h = f.mapDir k (h ∘ g) := by
  induction f with
  | nil => rfl
  | file n a rest ih =>
      simp only [mapDir]
      split <;> simp [mapDir, *]
  | dir n inside rest _ ih =>
      simp only [mapDir]
      split <;> simp [mapDir, *]

theorem alter_alter (d : List κ) (g h : Forest κ α → Forest κ α) (f : Forest κ α) :
    (f.alter g d).alter h d = f.alter (h ∘ g) d := by
  induction d generalizing f with
  | nil => rfl
  | cons k d ih =>
      rw [alter, alter, alter, mapDir_mapDir]
      congr 1
      exact funext ih

/-- A change inside a directory that has just been added. -/
theorem alter_insert_dir (d : List κ) (k : κ) (inside : Forest κ α) (g : Forest κ α → Forest κ α)
    (f : Forest κ α) :
    (f.alter (insert k (.dir inside)) d).alter g (d ++ [k]) = f.alter (insert k (.dir (g inside))) d := by
  rw [alter_concat, alter_alter]
  congr 1
  funext f
  simp [insert, mapDir]

theorem get_cons_congr {f f' : Forest κ α} {k : κ} (h : f'.find k = f.find k) (p : List κ) :
    f'.get (k :: p) = f.get (k :: p) := by
  simp only [get, h]

/-- Below the changed directory the change is seen. -/
theorem get_alter {f inside : Forest κ α} {d : List κ} (g : Forest κ α → Forest κ α) (q : List κ)
    (h : f.get d = some (.dir inside)) : (f.alter g d).get (d ++ q) = (g inside).get q := by
  induction d generalizing f with
  | nil =>
      cases h
      rfl
  | cons k d ih =>
      simp only [get] at h
      split at h
      · cases h
      · split at h <;> cases h
      · rename_i c hc
        rw [alter, List.cons_append, get_cons_dir (find_mapDir_self hc)]
        exact ih h

/-- Off the changed entry and the way down to it, the tree is the same. -/
theorem get_alter_of_disjoint {k : κ} {g : Forest κ α → Forest κ α} (hg : OnlyAt k g) {d p : List κ}
    (hup : ¬ p <+: d) (hdown : ¬ d ++ [k] <+: p) (f : Forest κ α) : (f.alter g d).get p = f.get p := by
  induction d generalizing f p with
  | nil =>
      cases p with
      | nil => exact absurd List.prefix_rfl hup
      | cons k' p =>
          refine get_cons_congr (hg f k' ?_) p
          rintro rfl
          exact hdown ⟨p, rfl⟩
  | cons k₀ d ih =>
      cases p with
      | nil => exact absurd List.nil_prefix hup
      | cons k' p =>
          rw [alter]
          by_cases hk : k' = k₀
          · subst hk
            rw [List.cons_append, List.cons_prefix_cons] at hdown
            rw [List.cons_prefix_cons] at hup
            by_cases hdir : ∃ inside, f.find k' = some (.dir inside)
            · obtain ⟨inside, hi⟩ := hdir
              rw [get_cons_dir (find_mapDir_self hi), get_cons_dir hi]
              exact ih (fun h => hup ⟨rfl, h⟩) (fun h => hdown ⟨rfl, h⟩) inside
            · rw [find_mapDir_of_not_dir fun inside hi => hdir ⟨inside, hi⟩]
          · exact get_cons_congr (find_mapDir_ne hk _ f) p

/-- Away from the changed entry nothing can be seen of the change. -/
theorem view_alter_of_not_below {k : κ} {g : Forest κ α → Forest κ α} (hg : OnlyAt k g) {d p : List κ}
    (hp : ¬ d ++ [k] <+: p) (f : Forest κ α) : (f.alter g d).view p = f.view p := by
  induction d generalizing f p with
  | nil =>
      cases p with
      | nil => rfl
      | cons k' p =>
          unfold view
          rw [alter, get_cons_congr (hg f k' ?_)]
          rintro rfl
          exact hp ⟨p, rfl⟩
  | cons k₀ d ih =>
      cases p with
      | nil => rfl
      | cons k' p =>
          rw [alter]
          by_cases hk : k' = k₀
          · subst hk
            rw [List.cons_append, List.cons_prefix_cons] at hp
            by_cases hdir : ∃ inside, f.find k' = some (.dir inside)
            · obtain ⟨inside, hi⟩ := hdir
              have := ih (fun h => hp ⟨rfl, h⟩) inside
              unfold view at this ⊢
              rw [get_cons_dir (find_mapDir_self hi), get_cons_dir hi]
              exact this
            · rw [find_mapDir_of_not_dir fun inside hi => hdir ⟨inside, hi⟩]
          · unfold view
            rw [get_cons_congr (find_mapDir_ne hk _ f)]

theorem view_eq_of_get {f : Forest κ α} {p q : List κ} {e : Entry κ α} (h : f.get p = some e) :
    f.view (p ++ q) = e.view q := by
  cases e with
  | dir inside =>
      unfold view
      rw [get_append h]
      rfl
  | file a =>
      cases q with
      | nil =>
          unfold view
          rw [List.append_nil, h]
          rfl
      | cons k q =>
          have hnone : f.get (p ++ k :: q) = none := by
            by_contra hne
            obtain ⟨e', he'⟩ := Option.ne_none_iff_exists'.mp hne
            obtain ⟨inside, hi⟩ := get_dir_of_append he' (List.cons_ne_nil k q)
            rw [h] at hi
            cases hi
          unfold view
          rw [hnone]
          rfl

theorem view_insert_below {f inside : Forest κ α} {d : List κ} {k : κ} {e : Entry κ α}
    (h : f.get d = some (.dir inside)) (q : List κ) :
    (f.alter (insert k e) d).view (d ++ [k] ++ q) = e.view q := by
  apply view_eq_of_get
  rw [get_alter _ _ h, get_singleton, find_insert, if_pos rfl]

theorem view_insert_self (k : κ) (e : Entry κ α) (f : Forest κ α) (p : List κ) :
    (f.insert k e).view (k :: p) = e.view p := by
  apply view_eq_of_get (p := [k])
  rw [get_singleton, find_insert, if_pos rfl]

theorem view_insert_ne {k k' : κ} (h : k' ≠ k) (e : Entry κ α) (f : Forest κ α) (p : List κ) :
    (f.insert k e).view (k' :: p) = f.view (k' :: p) := by
  unfold view
  rw [get_cons_congr (onlyAt_insert k e f k' h)]

theorem view_none_of_get {f : Forest κ α} {p q : List κ} (h : f.get p = none) : f.view (p ++ q) = none := by
  cases hq : f.get (p ++ q) with
  | none =>
      unfold view
      rw [hq]
      rfl
  | some e =>
      cases q with
      | nil =>
          rw [List.append_nil, h] at hq
          cases hq
      | cons k q =>
          obtain ⟨inside, hi⟩ := get_dir_of_append hq (List.cons_ne_nil k q)
          rw [h] at hi
          cases hi

theorem view_erase_below {f inside : Forest κ α} {d : List κ} {k : κ}
    (h : f.get d = some (.dir inside)) (q : List κ) :
    (f.alter (erase k) d).view (d ++ [k] ++ q) = none := by
  apply view_none_of_get
  rw [get_alter _ _ h, get_singleton, find_erase_self]

/-- A directory stands at a path. -/
def IsDir (f : Forest κ α) (p : List κ) : Prop := ∃ inside, f.get p = some (.dir inside)

theorem isDir_iff_view {f : Forest κ α} {p : List κ} : f.IsDir p ↔ f.view p = some none := by
  unfold IsDir view
  constructor
  · rintro ⟨inside, h⟩
    rw [h]
    rfl
  · intro h
    obtain ⟨e, he, hk⟩ := Option.map_eq_some_iff.mp h
    cases e with
    | file a => cases hk
    | dir inside => exact ⟨inside, he⟩

theorem get_eq_none_iff_view {f : Forest κ α} {p : List κ} : f.get p = none ↔ f.view p = none := by
  unfold view
  rw [Option.map_eq_none_iff]

omit [DecidableEq κ] in
theorem drop_append_concat (d q : List κ) (k : κ) : (d ++ [k] ++ q).drop (d.length + 1) = q := by
  rw [List.drop_append_of_le_length (by simp)]
  simp

theorem erase_of_not_mem {k : κ} {f : Forest κ α} (h : k ∉ f.names) : f.erase k = f := by
  induction f with
  | nil => rfl
  | file n a rest ih =>
      rw [names, List.mem_cons, not_or] at h
      rw [erase, if_neg (Ne.symm h.1), ih h.2]
  | dir n inside rest _ ih =>
      rw [names, List.mem_cons, not_or] at h
      rw [erase, if_neg (Ne.symm h.1), ih h.2]

theorem mapDir_congr {k : κ} {g g' : Forest κ α → Forest κ α} {f : Forest κ α}
    (h : ∀ inside, f.find k = some (.dir inside) → g inside = g' inside) : f.mapDir k g = f.mapDir k g' := by
  induction f with
  | nil => rfl
  | file n a rest ih =>
      simp only [mapDir]
      split
      · rfl
      · rename_i hn
        simp only [find, if_neg hn] at h
        rw [ih h]
  | dir n inside rest _ ih =>
      simp only [mapDir]
      split
      · rename_i hn
        rw [h inside (by simp [find, hn])]
      · rename_i hn
        simp only [find, if_neg hn] at h
        rw [ih h]

/-- Two changes of a directory that agree on what stands there. -/
theorem alter_congr {d : List κ} {g g' : Forest κ α → Forest κ α} {f : Forest κ α}
    (h : ∀ inside, f.get d = some (.dir inside) → g inside = g' inside) : f.alter g d = f.alter g' d := by
  induction d generalizing f with
  | nil => exact h f rfl
  | cons k d ih =>
      refine mapDir_congr fun inside hi => ih fun c hc => h c ?_
      rw [get_cons_dir hi]
      exact hc

theorem mapDir_id (k : κ) (f : Forest κ α) : f.mapDir k id = f := by
  induction f with
  | nil => rfl
  | file n a rest ih => simp [mapDir, ih]
  | dir n inside rest _ ih => simp [mapDir, ih]

theorem alter_id (d : List κ) (f : Forest κ α) : f.alter id d = f := by
  induction d generalizing f with
  | nil => rfl
  | cons k d ih =>
      rw [alter, funext ih]
      exact mapDir_id k f

theorem alter_eq_self {d : List κ} {g : Forest κ α → Forest κ α} {f : Forest κ α}
    (h : ∀ inside, f.get d = some (.dir inside) → g inside = inside) : f.alter g d = f :=
  (alter_congr h).trans (alter_id d f)

/-- Nothing is removed where nothing is. -/
theorem alter_erase_of_none {f : Forest κ α} {d : List κ} {k : κ} (h : f.get (d ++ [k]) = none) :
    f.alter (erase k) d = f := by
  refine alter_eq_self fun inside hi => erase_of_not_mem ?_
  rw [get_concat hi] at h
  exact find_eq_none_iff.mp h

/-- The view after an entry was removed. -/
theorem view_erase {f : Forest κ α} {d : List κ} {k : κ} (h : f.IsDir d) (p : List κ) :
    (f.alter (erase k) d).view p = if d ++ [k] <+: p then none else f.view p := by
  obtain ⟨inside, hi⟩ := h
  split
  · rename_i hp
    obtain ⟨q, rfl⟩ := hp
    exact view_erase_below hi q
  · rename_i hp
    exact view_alter_of_not_below (onlyAt_erase k) hp f

/-- The view after an entry was added. -/
theorem view_insert {f : Forest κ α} {d : List κ} {k : κ} {e : Entry κ α} (h : f.IsDir d) (p : List κ) :
    (f.alter (insert k e) d).view p =
      if d ++ [k] <+: p then e.view (p.drop (d.length + 1)) else f.view p := by
  obtain ⟨inside, hi⟩ := h
  split
  · rename_i hp
    obtain ⟨q, rfl⟩ := hp
    rw [drop_append_concat]
    exact view_insert_below hi q
  · rename_i hp
    exact view_alter_of_not_below (onlyAt_insert k e) hp f

/-- The view after one directory was changed. -/
theorem view_alter {f inside : Forest κ α} {d : List κ} {k : κ} (g : Forest κ α → Forest κ α)
    (h : f.get (d ++ [k]) = some (.dir inside)) (p : List κ) :
    (f.alter g (d ++ [k])).view p =
      if d ++ [k] <+: p then (g inside).view (p.drop (d.length + 1)) else f.view p := by
  split
  · rename_i hp
    obtain ⟨q, rfl⟩ := hp
    rw [drop_append_concat]
    unfold view
    rw [get_alter g q h]
  · rename_i hp
    rw [alter_concat]
    exact view_alter_of_not_below (onlyAt_mapDir k g) hp f

theorem isDir_erase {f : Forest κ α} {d p : List κ} {k : κ} (h : f.IsDir d) (hp : f.IsDir p)
    (hn : ¬ d ++ [k] <+: p) : (f.alter (erase k) d).IsDir p := by
  rw [isDir_iff_view] at hp ⊢
  rw [view_erase h, if_neg hn]
  exact hp

end Forest

/-! ## Weights -/

section Weight

variable (w : α → Nat)

/-- The weight of all the files below a directory. -/
@[simp] def Forest.total : Forest κ α → Nat
  | .nil => 0
  | .file _ a rest => w a + total rest
  | .dir _ inside rest => total inside + total rest

def Entry.total : Entry κ α → Nat
  | .file a => w a
  | .dir f => f.total w

namespace Forest

omit [DecidableEq κ] in
theorem total_insert (k : κ) (e : Entry κ α) (f : Forest κ α) :
    (f.insert k e).total w = e.total w + f.total w := by
  cases e <;> rfl

theorem total_erase_le (k : κ) (f : Forest κ α) : (f.erase k).total w ≤ f.total w := by
  induction f with
  | nil => exact Nat.le_refl _
  | file n a rest ih =>
      simp only [erase]
      split <;> simp only [total] <;> omega
  | dir n inside rest _ ih =>
      simp only [erase]
      split <;> simp only [total] <;> omega

theorem total_erase_add {k : κ} {f : Forest κ α} {e : Entry κ α} (h : f.find k = some e) :
    (f.erase k).total w + e.total w ≤ f.total w := by
  induction f with
  | nil => cases h
  | file n a rest ih =>
      simp only [find] at h
      simp only [erase]
      split at h
      · rename_i hn
        cases h
        have := total_erase_le w k rest
        simp only [if_pos hn, total, Entry.total]
        omega
      · rename_i hn
        have := ih h
        simp only [if_neg hn, total]
        omega
  | dir n inside rest _ ih =>
      simp only [find] at h
      simp only [erase]
      split at h
      · rename_i hn
        cases h
        have := total_erase_le w k rest
        simp only [if_pos hn, total, Entry.total]
        omega
      · rename_i hn
        have := ih h
        simp only [if_neg hn, total]
        omega

/-- A change that adds at most `c` to a directory adds at most `c` to the tree. -/
theorem total_mapDir_le {k : κ} {g : Forest κ α → Forest κ α} {c : Nat}
    (hg : ∀ f, (g f).total w ≤ f.total w + c) (f : Forest κ α) :
    (f.mapDir k g).total w ≤ f.total w + c := by
  induction f with
  | nil => exact Nat.zero_le _
  | file n a rest ih =>
      simp only [mapDir]
      split <;> simp only [total] <;> omega
  | dir n inside rest _ ih =>
      have := hg inside
      simp only [mapDir]
      split <;> simp only [total] <;> omega

theorem total_alter_le {g : Forest κ α → Forest κ α} {c : Nat} (hg : ∀ f, (g f).total w ≤ f.total w + c)
    (d : List κ) (f : Forest κ α) : (f.alter g d).total w ≤ f.total w + c := by
  induction d generalizing f with
  | nil => exact hg f
  | cons k d ih => exact total_mapDir_le w ih f

theorem total_mapDir {k : κ} {g : Forest κ α → Forest κ α} {f inside : Forest κ α}
    (h : f.find k = some (.dir inside)) :
    (f.mapDir k g).total w + inside.total w = f.total w + (g inside).total w := by
  induction f with
  | nil => cases h
  | file n a rest ih =>
      simp only [find] at h
      split at h
      · cases h
      · rename_i hn
        have := ih h
        simp only [mapDir, if_neg hn, total]
        omega
  | dir n c rest _ ih =>
      simp only [find] at h
      split at h
      · rename_i hn
        cases h
        simp only [mapDir, if_pos hn, total]
        omega
      · rename_i hn
        have := ih h
        simp only [mapDir, if_neg hn, total]
        omega

/-- A change of one directory changes the weight of the tree by as much. -/
theorem total_alter {g : Forest κ α → Forest κ α} {d : List κ} {f inside : Forest κ α}
    (h : f.get d = some (.dir inside)) :
    (f.alter g d).total w + inside.total w = f.total w + (g inside).total w := by
  induction d generalizing f with
  | nil =>
      cases h
      rw [alter]
      omega
  | cons k d ih =>
      simp only [get] at h
      split at h
      · cases h
      · split at h <;> cases h
      · rename_i c hc
        have hm := total_mapDir w (g := alter g d) hc
        have hi := ih h
        rw [alter]
        omega

end Forest

end Weight

/-! ## Names -/

namespace Forest

variable {P : κ → Prop}

/-- Every name in the tree satisfies `P`. -/
@[simp] def Named (P : κ → Prop) : Forest κ α → Prop
  | .nil => True
  | .file n _ rest => P n ∧ Named P rest
  | .dir n inside rest => P n ∧ Named P inside ∧ Named P rest

/-- The names in each directory of the tree are distinct. -/
@[simp] def Distinct : Forest κ α → Prop
  | .nil => True
  | .file n _ rest => n ∉ rest.names ∧ Distinct rest
  | .dir n inside rest => n ∉ rest.names ∧ Distinct inside ∧ Distinct rest

theorem mem_names_of_find {f : Forest κ α} {k : κ} {e : Entry κ α} (h : f.find k = some e) :
    k ∈ f.names := by
  by_contra hn
  rw [find_eq_none_iff.mpr hn] at h
  cases h

omit [DecidableEq κ] in
theorem Named.name {f : Forest κ α} (h : f.Named P) {n : κ} (hn : n ∈ f.names) : P n := by
  induction f with
  | nil => cases hn
  | file m a rest ih =>
      cases hn with
      | head => exact h.1
      | tail _ hn => exact ih h.2 hn
  | dir m inside rest _ ih =>
      cases hn with
      | head => exact h.1
      | tail _ hn => exact ih h.2.2 hn

theorem Named.inside {f inside : Forest κ α} (h : f.Named P) {k : κ} (hk : f.find k = some (.dir inside)) :
    inside.Named P := by
  induction f with
  | nil => cases hk
  | file m a rest ih =>
      simp only [find] at hk
      split at hk
      · cases hk
      · exact ih h.2 hk
  | dir m c rest _ ih =>
      simp only [find] at hk
      split at hk
      · cases hk
        exact h.2.1
      · exact ih h.2.2 hk

theorem Named.of_get {f : Forest κ α} (h : f.Named P) {d : List κ} {k : κ} {e : Entry κ α}
    (he : f.get (d ++ [k]) = some e) : P k := by
  induction d generalizing f with
  | nil =>
      rw [List.nil_append, get_singleton] at he
      exact h.name (mem_names_of_find he)
  | cons k' d ih =>
      rw [List.cons_append, get] at he
      split at he
      · cases he
      · split at he
        · rename_i hnil
          simp at hnil
        · cases he
      · rename_i c hc
        exact ih (h.inside hc) he

theorem Distinct.inside {f inside : Forest κ α} (h : f.Distinct) {k : κ}
    (hk : f.find k = some (.dir inside)) : inside.Distinct := by
  induction f with
  | nil => cases hk
  | file m a rest ih =>
      simp only [find] at hk
      split at hk
      · cases hk
      · exact ih h.2 hk
  | dir m c rest _ ih =>
      simp only [find] at hk
      split at hk
      · cases hk
        exact h.2.1
      · exact ih h.2.2 hk

theorem Distinct.get {f inside : Forest κ α} {p : List κ} (h : f.Distinct)
    (hp : f.get p = some (.dir inside)) : inside.Distinct := by
  induction p generalizing f with
  | nil =>
      cases hp
      exact h
  | cons k p ih =>
      simp only [Forest.get] at hp
      split at hp
      · cases hp
      · split at hp <;> cases hp
      · rename_i c hc
        exact ih (h.inside hc) hp

/-- Of two names in one directory of the tree, the earlier one stands in relation `R` to the later one. -/
@[simp] def Spaced (R : κ → κ → Prop) : Forest κ α → Prop
  | .nil => True
  | .file n _ rest => (∀ m ∈ rest.names, R n m) ∧ Spaced R rest
  | .dir n inside rest => (∀ m ∈ rest.names, R n m) ∧ Spaced R inside ∧ Spaced R rest

/-- How many names the longest path down the tree has. -/
@[simp] def height : Forest κ α → Nat
  | .nil => 0
  | .file _ _ rest => max 1 (height rest)
  | .dir _ inside rest => max (height inside + 1) (height rest)

/-- The files of the tree, from the first to the last. -/
@[simp] def files : Forest κ α → List α
  | .nil => []
  | .file _ a rest => a :: files rest
  | .dir _ inside rest => files inside ++ files rest

end Forest

namespace Entry

/-- Every name below an entry satisfies `P`. -/
def Named (P : κ → Prop) : Entry κ α → Prop
  | .file _ => True
  | .dir inside => inside.Named P

def Distinct : Entry κ α → Prop
  | .file _ => True
  | .dir inside => inside.Distinct

def Spaced (R : κ → κ → Prop) : Entry κ α → Prop
  | .file _ => True
  | .dir inside => inside.Spaced R

def height : Entry κ α → Nat
  | .file _ => 1
  | .dir inside => inside.height + 1

def files : Entry κ α → List α
  | .file a => [a]
  | .dir inside => inside.files

end Entry

omit [DecidableEq κ] in
theorem Forest.files_insert (k : κ) (e : Entry κ α) (f : Forest κ α) :
    (f.insert k e).files = e.files ++ f.files := by
  cases e <;> rfl

omit [DecidableEq κ] in
theorem Forest.height_insert (k : κ) (e : Entry κ α) (f : Forest κ α) :
    (f.insert k e).height = max e.height f.height := by
  cases e <;> rfl

end Selfhost.Lib
