import Entitlement.Proofs.Grant.Selection
import Mathlib.Data.List.Forall2
/-!
Letter case does not matter: of two lists of grants that agree in lowercase place by place the same is
permitted, the grants in the same places are kept, and the first one that goes beyond a full list is
in the same place.
-/

namespace Entitlement

open Text (lowercase)

variable {grants others : List Grant} {grant other : Grant}

namespace Grant.Alike

theorem asRequest_eq (h : grant.Alike other) : grant.asRequest = other.asRequest := by
  simp [asRequest, Request.of, h.objectType, h.definition, h.action, h.path]

theorem permits_eq (h : grant.Alike other) (request : Request) :
    grant.permits request = other.permits request := by
  simp [permits, h.objectType, h.definition, h.action, h.path]

end Grant.Alike

section Throughout

variable (h : List.Forall₂ Grant.Alike grants others)

include h

theorem map_eq_of_alike (hf : ∀ grant other : Grant, grant.Alike other → f grant = f other) :
    grants.map f = others.map f := by
  induction h
  case nil => rfl
  case cons ha _ hi => rw [List.map_cons, List.map_cons, hf _ _ ha, hi]

theorem keys_eq_of_alike : grants.map Grant.key = others.map Grant.key :=
  map_eq_of_alike h fun _ _ => Grant.alike_iff.mp

theorem permitted_eq_of_alike (request : Request) :
    permitted grants request = permitted others request := by
  induction h
  case nil => rfl
  case cons ha _ hi =>
    rw [permitted, permitted, List.any_cons, List.any_cons, ha.permits_eq request]
    exact congrArg _ hi

theorem findIdx?_eq_of_alike (p : Request → Bool) :
    grants.findIdx? (fun grant => p grant.asRequest) =
      others.findIdx? fun other => p other.asRequest := by
  have hr := congrArg (List.findIdx? p) (map_eq_of_alike h fun _ _ => Grant.Alike.asRequest_eq)
  simpa [List.findIdx?_map, Function.comp_def] using hr

end Throughout

-- The places where a key that survives occurs for the first time.
def keptPlaces (keys : List (Kind × String)) : List Nat :=
  (keys.zipIdx.filter fun (key, place) =>
    (Compaction.survivors keys).contains key && !(keys.take place).contains key).map Prod.snd

theorem keptPlaces_ascending (keys : List (Kind × String)) :
    (keptPlaces keys).Pairwise (· < ·) := by
  have hs : (keptPlaces keys).Sublist (keys.zipIdx.map Prod.snd) := List.filter_sublist.map _
  rw [List.zipIdx_map_snd] at hs
  exact List.Pairwise.sublist hs List.pairwise_lt_range'

theorem filterMap_getElem?_of_mem_zipIdx {list : List α} {entries : List (α × Nat)}
    (h : ∀ entry ∈ entries, entry ∈ list.zipIdx) :
    (entries.map Prod.snd).filterMap (list[·]?) = entries.map Prod.fst := by
  induction entries
  case nil => rfl
  case cons entry entries hi =>
    have ⟨he, hr⟩ := List.forall_mem_cons.mp h
    have he := List.mem_zipIdx_iff_getElem?.mp he
    rw [List.map_cons, List.map_cons, List.filterMap_cons_some he, hi hr]

-- Which places are kept can be told from the keys alone.
theorem compacted_eq_filterMap (grants : List Grant) :
    compacted grants = (keptPlaces (grants.map Grant.key)).filterMap (grants[·]?) := by
  let keys := grants.map Grant.key
  let kept (entry : Grant × Nat) : Bool := entry.1.key ∈ Compaction.survivors keys ∧
    ∀ earlier ∈ grants.take entry.2, earlier.key ≠ entry.1.key
  have hc : compacted grants = (grants.zipIdx.filter kept).map Prod.fst :=
    Compaction.claim_of_nodup
      (Compaction.nodup_survivorsIn (measured_of_mem_keys grants) (nodup_eraseDups _)) grants
  have hk : keptPlaces keys = (grants.zipIdx.filter kept).map Prod.snd := by
    rw [keptPlaces, List.zipIdx_map, List.filter_map, List.map_map]
    apply congrArg
    apply List.filter_congr
    intro entry _
    rw [Bool.eq_iff_iff]
    simp [kept, keys, ← List.map_take]
  rw [hc, hk, filterMap_getElem?_of_mem_zipIdx fun entry hm => (List.mem_filter.mp hm).1]

-- Grants and requests that agree in lowercase are treated alike: the same is permitted, the grants in
-- the same places are kept, and the first grant that a full list does not allow is in the same place.
-- A path can be cut before it is lowercased or after it.
theorem indifferent_to_case (h : List.Forall₂ Grant.Alike grants others)
    (ha : lowercase action = lowercase otherAction) (ht : lowercase objectType = lowercase otherType)
    (hp : lowercase path = lowercase otherPath)
    (hd : lowercase definition = lowercase otherDefinition) (full : List Grant) (text : String) :
    permitted grants (.of action objectType path definition) =
      permitted others (.of otherAction otherType otherPath otherDefinition) ∧
    (∃ places : List Nat, places.Pairwise (· < ·) ∧
      compacted grants = places.filterMap (grants[·]?) ∧
      compacted others = places.filterMap (others[·]?)) ∧
    grants.findIdx? (fun grant => !permitted full grant.asRequest) =
      others.findIdx? (fun other => !permitted full other.asRequest) ∧
    Path.segments (lowercase text) = (Path.segments text).map lowercase := by
  have hr : Request.of action objectType path definition =
      .of otherAction otherType otherPath otherDefinition := by
    simp [Request.of, ha, ht, hp, hd]
  refine ⟨?permitted, ?places, ?first, Text.segments_lowercase text⟩
  case permitted => rw [hr, permitted_eq_of_alike h]
  case places =>
    have ho := compacted_eq_filterMap others
    rw [← keys_eq_of_alike h] at ho
    exact ⟨_, keptPlaces_ascending _, compacted_eq_filterMap grants, ho⟩
  case first => exact findIdx?_eq_of_alike h fun request => !permitted full request

-- A capital sigma is lowercased in two ways, and a dotted capital i to two characters.
theorem indifferent_to_sigma :
    let grants : List Grant := [⟨1, 1, "Οδος", "Svc", "ΑΣ//İ", 1, "view"⟩,
      ⟨2, 1, "ΟΔΟΣ", "svc", "ας//i\u0307", 1, "*"⟩, ⟨3, 1, "οδος", "Svc", "Ας//*", 1, "VIEW"⟩]
    let others : List Grant := [⟨4, 1, "ΟΔΟΣ", "svc", "ας//i\u0307", 2, "View"⟩,
      ⟨5, 1, "οδος", "SVC", "αΣ//İ", 2, "*"⟩, ⟨6, 1, "ΟΔΟΣ", "SVC", "ΑΣ//*", 2, "view"⟩]
    let full := grants.drop 2
    List.Forall₂ Grant.Alike grants others ∧ (compacted grants).map Grant.id = [2, 3] ∧
      permitted grants (.of "view" "ΟΔΟΣ" "ΑΣ//Σ" "SVC") =
        permitted others (.of "VIEW" "οδος" "ας//σ" "svc") ∧
      (∃ places : List Nat, places.Pairwise (· < ·) ∧
        compacted grants = places.filterMap (grants[·]?) ∧
        compacted others = places.filterMap (others[·]?)) ∧
      others.findIdx? (fun other => !permitted full other.asRequest) = some 1 ∧
      (Path.segments "ΑΣ//Σ///Σ").map lowercase = ["ας", "σ", "/σ"] := by
  intro grants others full
  have h : List.Forall₂ Grant.Alike grants others :=
    .cons (by decide +kernel) (.cons (by decide +kernel) (.cons (by decide +kernel) .nil))
  have ha : lowercase "view" = lowercase "VIEW" := by decide +kernel
  have ht : lowercase "ΟΔΟΣ" = lowercase "οδος" := by decide +kernel
  have hp : lowercase "ΑΣ//Σ" = lowercase "ας//σ" := by decide +kernel
  have hd : lowercase "SVC" = lowercase "svc" := by decide +kernel
  have ⟨hr, hc, hf, hs⟩ := indifferent_to_case h ha ht hp hd full "ΑΣ//Σ///Σ"
  exact ⟨h, by decide +kernel, hr, hc, hf.symm.trans (by decide +kernel),
    hs.symm.trans (by decide +kernel)⟩

end Entitlement
