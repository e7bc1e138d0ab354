import Entitlement.Proofs.Grant.Compaction
import Mathlib.Data.List.Nodup
/-!
Which grants of a list are left when it is compacted, told by their places in the list. The kinds
can be taken in any order, and the paths of each kind have a cover.
-/

namespace Entitlement

variable {grants : List Grant} {grant other : Grant} {kinds : List Kind} {kind : Kind}

namespace Grant

-- Both have the same object type, definition, action and path, in lowercase.
structure Alike (other grant : Grant) : Prop where
  objectType : Text.lowercase other.objectType = Text.lowercase grant.objectType
  definition : Text.lowercase other.definition = Text.lowercase grant.definition
  action : Text.lowercase other.action = Text.lowercase grant.action
  path : Text.lowercase other.path = Text.lowercase grant.path

-- Paths that agree in lowercase are equally long, so that the kinds agree as well.
theorem Alike.length_segments (h : other.Alike grant) :
    other.segments.length = grant.segments.length := by
  have ho := Text.length_segments_lowercase other.path
  rw [h.path, Text.length_segments_lowercase] at ho
  exact ho.symm

theorem alike_iff : other.Alike grant ↔ other.key = grant.key := by
  simp only [key, kind, Prod.mk.injEq, Kind.mk.injEq]
  constructor
  case mp => exact fun h => ⟨⟨h.objectType, h.definition, h.action, h.length_segments⟩, h.path⟩
  case mpr =>
    rintro ⟨⟨ht, hd, ha, _⟩, hp⟩
    exact ⟨ht, hd, ha, hp⟩

theorem overrides_iff : other.Overrides grant ↔
    other.kind = grant.kind ∧ Path.Outranks other.pattern grant.pattern :=
  ⟨fun h => ⟨h.kind, h.outranks⟩, fun h => ⟨h.1, h.2⟩⟩

instance : Decidable (other.Alike grant) :=
  decidable_of_iff' _ alike_iff

instance : Decidable (other.Overrides grant) :=
  decidable_of_iff' _ overrides_iff

end Grant

instance : Decidable (Overridden grants grant) :=
  inferInstanceAs (Decidable (∃ other ∈ grants, other.Overrides grant))

-- The grant at a place of a list stays: it is the first of those like it, and none overrides it.
structure Retained (grants : List Grant) (place : Nat) (grant : Grant) : Prop where
  first : ∀ earlier ∈ grants.take place, ¬earlier.Alike grant
  upheld : ¬Overridden grants grant

theorem retained_iff {place : Nat} : Retained grants place grant ↔
    (∀ earlier ∈ grants.take place, ¬earlier.Alike grant) ∧ ¬Overridden grants grant :=
  ⟨fun h => ⟨h.first, h.upheld⟩, fun h => ⟨h.1, h.2⟩⟩

instance {place : Nat} : Decidable (Retained grants place grant) :=
  decidable_of_iff' _ retained_iff

def retained (grants : List Grant) : List Grant :=
  (grants.zipIdx.filter fun (grant, place) => Retained grants place grant).map Prod.fst

-- An order in which the kinds of a list of grants can be taken, each one once.
structure Enumerates (kinds : List Kind) (grants : List Grant) : Prop where
  nodup : kinds.Nodup
  mem_iff : ∀ kind, kind ∈ kinds ↔ ∃ grant ∈ grants, grant.kind = kind

theorem nodup_eraseDups [BEq α] [LawfulBEq α] (list : List α) : list.eraseDups.Nodup := by
  induction list using List.reverseRecOn
  case nil => exact .nil
  case append_singleton list last hi =>
    rw [List.eraseDups_append]
    by_cases h : last ∈ list
    case pos =>
      have he : [last].removeAll list = [] := by simp [List.removeAll, h]
      simpa [he] using hi
    case neg =>
      have he : [last].removeAll list = [last] := by simp [List.removeAll, h]
      rw [he]
      refine hi.append (List.nodup_singleton last) (List.disjoint_singleton.mpr ?_)
      rwa [List.mem_eraseDups]

namespace Compaction

variable {keys left kept : List (Kind × String)} {before rest : List Grant}

def pathsOf (keys : List (Kind × String)) (kind : Kind) : List String :=
  (keys.filter (·.1 = kind)).map Prod.snd

def survivorsIn (kinds : List Kind) (keys : List (Kind × String)) : List (Kind × String) :=
  kinds.flatMap fun kind => (survivingPaths (pathsOf keys kind)).map (kind, ·)

theorem count_of_mem_pathsOf (h : ∀ key ∈ keys, Measured key) (kind : Kind) :
    ∀ path ∈ pathsOf keys kind, Path.count path = kind.length := by
  intro path hp
  have hk : (kind, path) ∈ keys := by simpa [pathsOf] using hp
  exact h _ hk

-- The paths of a kind are equally long.
theorem exists_cover (h : ∀ key ∈ keys, Measured key) (hp : pathsOf keys kind ≠ []) :
    ∃ kept, Path.cover? (pathsOf keys kind) = .ok kept ∧ kept.Nodup := by
  have hc := count_of_mem_pathsOf h kind
  cases he : pathsOf keys kind
  case nil => exact absurd he hp
  case cons first rest =>
    rw [he] at hc
    have ⟨kept, hk, hu⟩ := Path.exists_unrivalled fun path hm =>
      (hc path hm).trans (hc first List.mem_cons_self).symm
    exact ⟨kept, hk, hu.nodup⟩

theorem nodup_survivingPaths (h : ∀ key ∈ keys, Measured key) :
    (survivingPaths (pathsOf keys kind)).Nodup := by
  by_cases hp : pathsOf keys kind = []
  case pos => simp [hp, survivingPaths, Path.cover?, Except.toOption]
  case neg =>
    obtain ⟨kept, hk, hn⟩ := exists_cover h hp
    rwa [survivingPaths, hk]

theorem nodup_survivorsIn (h : ∀ key ∈ keys, Measured key) (hk : kinds.Nodup) :
    (survivorsIn kinds keys).Nodup := by
  rw [survivorsIn, List.nodup_flatMap]
  constructor
  case left => exact fun kind _ => (nodup_survivingPaths h).map fun _ _ he => (Prod.mk.inj he).2
  case right =>
    refine hk.imp fun {kind other} hne key hm ho => ?_
    have ⟨path, _, hp⟩ := List.mem_map.mp hm
    have ⟨next, _, hn⟩ := List.mem_map.mp ho
    exact hne (Prod.mk.inj (hp.trans hn.symm)).1

-- Which keys survive depends on what the kinds are, and not on their order.
theorem mem_survivorsIn (hk : ∀ kind, kind ∈ kinds ↔ kind ∈ keys.map Prod.fst)
    (key : Kind × String) : key ∈ survivorsIn kinds keys ↔ key ∈ survivors keys := by
  simp only [survivors, survivorsIn, pathsOf, List.mem_flatMap, List.mem_eraseDups, hk]

-- The first grant with a key takes it, so that those behind it are left out. The keys that are left
-- are the ones to keep that no grant before had.
theorem claim_eq (hl : left.Nodup)
    (hm : ∀ key, key ∈ left ↔ key ∈ kept ∧ key ∉ before.map Grant.key) :
    claim left (rest.map fun g => (g, g.key)) =
      ((rest.zipIdx before.length).filter fun (grant, place) => grant.key ∈ kept ∧
        ∀ earlier ∈ (before ++ rest).take place, earlier.key ≠ grant.key).map Prod.fst := by
  induction rest generalizing before left
  case nil => rfl
  case cons grant rest hi =>
    have hg : (grant.key ∈ kept ∧ ∀ earlier ∈ (before ++ grant :: rest).take before.length,
        earlier.key ≠ grant.key) ↔ grant.key ∈ left := by
      simp [hm]
    have hn : ∀ key, (key ∈ kept ∧ key ∉ (before ++ [grant]).map Grant.key) ↔
        key ≠ grant.key ∧ key ∈ left := by
      intro key
      rw [hm, List.map_append, List.mem_append]
      simp
      tauto
    have hb : before ++ grant :: rest = (before ++ [grant]) ++ rest := by simp
    have hs : before.length + 1 = (before ++ [grant]).length := by simp
    rw [List.map_cons, claim, List.zipIdx_cons, List.filter_cons]
    by_cases hk : grant.key ∈ left
    case pos =>
      rw [if_pos hk, if_pos (by simpa using hg.mpr hk), List.map_cons, hb, hs]
      exact congrArg _ (hi (hl.erase _) fun key => hl.mem_erase_iff.trans (hn key).symm)
    case neg =>
      have he : ∀ key, key ∈ left ↔ key ≠ grant.key ∧ key ∈ left :=
        fun key => ⟨fun hl => ⟨fun he => hk (he ▸ hl), hl⟩, And.right⟩
      rw [if_neg hk, if_neg (by simpa using fun h => hk (hg.mp h)), hb, hs]
      exact hi hl fun key => (he key).trans (hn key).symm

theorem claim_of_nodup (hk : kept.Nodup) (grants : List Grant) :
    claim kept (grants.map fun g => (g, g.key)) =
      (grants.zipIdx.filter fun (grant, place) => grant.key ∈ kept ∧
        ∀ earlier ∈ grants.take place, earlier.key ≠ grant.key).map Prod.fst := by
  have hm : ∀ key, key ∈ kept ↔ key ∈ kept ∧ key ∉ ([] : List Grant).map Grant.key := by simp
  exact claim_eq hk hm

end Compaction

-- The compacted list if the kinds are taken in a given order.
def compactedBy (kinds : List Kind) (grants : List Grant) : List Grant :=
  Compaction.claim (Compaction.survivorsIn kinds (grants.map Grant.key))
    (grants.map fun g => (g, g.key))

theorem measured_of_mem_keys (grants : List Grant) :
    ∀ key ∈ grants.map Grant.key, Compaction.Measured key :=
  List.forall_mem_map.mpr fun grant _ => Compaction.measured_key grant

theorem enumerates_eraseDups (grants : List Grant) :
    Enumerates ((grants.map Grant.key).map Prod.fst).eraseDups grants := by
  constructor
  case nodup => exact nodup_eraseDups _
  case mem_iff => simp [Grant.key]

theorem Enumerates.compactedBy_eq (h : Enumerates kinds grants) :
    compactedBy kinds grants = retained grants := by
  have hk : ∀ kind, kind ∈ kinds ↔ kind ∈ (grants.map Grant.key).map Prod.fst := by
    simpa [Grant.key] using h.mem_iff
  have hn := Compaction.nodup_survivorsIn (measured_of_mem_keys grants) h.nodup
  rw [compactedBy, Compaction.claim_of_nodup hn, retained]
  refine congrArg _ (List.filter_congr fun entry hp => ?_)
  obtain ⟨grant, place⟩ := entry
  have hg : grant ∈ grants := List.mem_of_getElem? (List.mem_zipIdx_iff_getElem?.mp hp)
  simp only [Compaction.mem_survivorsIn hk, key_mem_survivors_iff hg, retained_iff,
    Grant.alike_iff, and_comm]

-- A list of grants is compacted to the ones that are retained, in their order. The paths of each
-- kind have a cover, and the kinds can be taken in any order.
theorem compacted_eq_retained (grants : List Grant) :
    compacted grants = retained grants ∧
      (∀ grant ∈ grants, ∃ kept,
        Path.cover? (Compaction.pathsOf (grants.map Grant.key) grant.kind) = .ok kept) ∧
      ∀ kinds, Enumerates kinds grants → compactedBy kinds grants = compacted grants := by
  have hr : compacted grants = retained grants := (enumerates_eraseDups grants).compactedBy_eq
  refine ⟨hr, fun grant hg => ?_, fun kinds hk => hk.compactedBy_eq.trans hr.symm⟩
  have hp : Text.lowercase grant.path ∈
      Compaction.pathsOf (grants.map Grant.key) grant.kind := by
    simpa [Compaction.pathsOf] using ⟨grant, hg, rfl⟩
  have ⟨kept, hc, _⟩ := Compaction.exists_cover (measured_of_mem_keys grants)
    (List.ne_nil_of_mem hp)
  exact ⟨kept, hc⟩

-- A star goes before a name and a repetition is left out, also if the shorter paths come first.
theorem compacted_from_shorter : ∃ kinds grants, Enumerates kinds grants ∧
    kinds.map Kind.length = [1, 2] ∧ compactedBy kinds grants = compacted grants ∧
    (compacted grants).map Grant.objectType = ["SERVICE", "service"] := by
  let grants : List Grant := [⟨1, 1, "service", "Svc", "a//b", 1, "view"⟩,
    ⟨2, 1, "SERVICE", "svc", "A//*", 1, "View"⟩, ⟨3, 1, "service", "Svc", "a//*", 1, "view"⟩,
    ⟨4, 1, "service", "Svc", "a", 1, "view"⟩]
  let kinds : List Kind := [⟨"service", "svc", "view", 1⟩, ⟨"service", "svc", "view", 2⟩]
  have hk : Enumerates kinds grants := by
    have hg : grants.map Grant.kind = [kinds[1], kinds[1], kinds[1], kinds[0]] := by decide +kernel
    refine ⟨by decide, fun kind => ?_⟩
    rw [← List.mem_map, hg]
    simp [kinds]
    tauto
  have ⟨_, _, hc⟩ := compacted_eq_retained grants
  exact ⟨kinds, grants, hk, rfl, hc kinds hk, by decide +kernel⟩

end Entitlement
