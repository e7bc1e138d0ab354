/-!
Values under names, kept as a list in ascending order of the names. Names compare by code points,
which is also the order of their UTF-8 bytes.
-/

namespace Entitlement

abbrev Fields (α : Type u) := List (String × α)

namespace Fields

variable {α : Type u}

def names (fields : Fields α) : List String :=
  fields.map Prod.fst

-- Each name occurs once, and smaller names come first.
def Ascending (fields : Fields α) : Prop :=
  fields.Pairwise (fun a b => a.1 < b.1)

def find? (name : String) : Fields α → Option α
  | [] => none
  | (n, a) :: rest => if name = n then some a else find? name rest

-- An earlier value under the same name is replaced.
def insert (name : String) (value : α) : Fields α → Fields α
  | [] => [(name, value)]
  | (n, a) :: rest =>
    if name < n then (name, value) :: (n, a) :: rest
    else if name = n then (name, value) :: rest
    else (n, a) :: insert name value rest

def erase (name : String) (fields : Fields α) : Fields α :=
  fields.filter (fun field => field.1 ≠ name)

-- Of two values under one name the later one is kept.
def ofList (entries : List (String × α)) : Fields α :=
  entries.foldl (fun fields entry => fields.insert entry.1 entry.2) []

theorem find?_insert_self (fields : Fields α) (name : String) (value : α) :
    (fields.insert name value).find? name = some value := by
  fun_induction insert name value fields with
  | case1 => simp [find?]
  | case2 => simp [find?]
  | case3 => simp [find?]
  | case4 n a rest _ hne ih => simp [find?, hne, ih]

theorem find?_insert_ne (fields : Fields α) (value : α) (h : other ≠ name) :
    (fields.insert name value).find? other = fields.find? other := by
  fun_induction insert name value fields with
  | case1 => simp [find?, h]
  | case2 => simp [find?, h]
  | case3 => simp [find?, h]
  | case4 n a rest _ _ ih => simp [find?, ih]

theorem find?_insert (fields : Fields α) (name other : String) (value : α) :
    (fields.insert name value).find? other =
      if other = name then some value else fields.find? other := by
  split
  · subst other; exact find?_insert_self ..
  · exact find?_insert_ne _ _ ‹_›

theorem find?_erase (fields : Fields α) (name other : String) :
    (fields.erase name).find? other = if other = name then none else fields.find? other := by
  induction fields with
  | nil => simp [erase, find?]
  | cons field rest ih =>
    obtain ⟨n, a⟩ := field
    by_cases hn : n = name <;> by_cases ho : other = n <;> simp_all [erase, find?]

theorem mem_insert {fields : Fields α} (h : entry ∈ fields.insert name value) :
    entry = (name, value) ∨ entry ∈ fields := by
  fun_induction insert name value fields with
  | case1 => simp_all
  | case2 => simp_all
  | case3 => simp_all; grind
  | case4 n a rest _ _ ih => simp_all; grind

theorem insert_ascending {fields : Fields α} (h : fields.Ascending) (name : String) (value : α) :
    (fields.insert name value).Ascending := by
  fun_induction insert name value fields with
  | case1 => simp [Ascending]
  | case2 n a rest hlt =>
    refine List.pairwise_cons.2 ⟨fun entry mem => ?_, h⟩
    rcases List.mem_cons.1 mem with rfl | mem
    · exact hlt
    · exact String.lt_trans hlt ((List.pairwise_cons.1 h).1 entry mem)
  | case3 n rest => 
    obtain ⟨h₁, h₂⟩ := List.pairwise_cons.1 h
    exact List.pairwise_cons.2 ⟨h₁, h₂⟩
  | case4 n a rest hlt hne ih =>
    obtain ⟨h₁, h₂⟩ := List.pairwise_cons.1 h
    refine List.pairwise_cons.2 ⟨fun entry mem => ?_, ih h₂⟩
    rcases mem_insert mem with rfl | mem
    · have := String.not_lt.1 hlt
      exact Std.lt_of_le_of_ne this (fun e => hne e.symm)
    · exact h₁ entry mem

theorem erase_ascending {fields : Fields α} (h : fields.Ascending) (name : String) :
    (fields.erase name).Ascending :=
  h.filter _

theorem ofList_ascending (entries : List (String × α)) : (ofList entries).Ascending := by
  suffices h : ∀ fields : Fields α, fields.Ascending →
      (entries.foldl (fun fields entry => fields.insert entry.1 entry.2) fields).Ascending from
    h [] List.Pairwise.nil
  induction entries with
  | nil => exact fun _ h => h
  | cons entry rest ih => exact fun fields h => ih _ (insert_ascending h ..)

end Fields
end Entitlement
