import Entitlement.Proofs.Store.Effect
import Mathlib.Data.List.Basic
/-!
Which occurrences of a value are taken out of a list, told by their places in it: a positive count
takes the first ones, a negative one the last ones, and zero takes all of them.
-/

namespace Entitlement.Store

variable {store : Store} {now : Instant} {key value : String} {front items kept : List String}
  {limit gone : Nat} {count : Int64}

-- The items that have a property where they are.
def atPlaces (p : String → Nat → Bool) (items : List String) : List String :=
  (items.zipIdx.filter fun (item, place) => p item place).map Prod.fst

-- An occurrence of the value goes if fewer than `n` are before it.
def withoutFirst (n : Nat) (value : String) (items : List String) : List String :=
  items |> atPlaces fun item place => ¬(item = value ∧ (items.take place).count value < n)

-- An occurrence of the value goes if fewer than `n` are after it.
def withoutLast (n : Nat) (value : String) (items : List String) : List String :=
  items |> atPlaces fun item place => ¬(item = value ∧ (items.drop (place + 1)).count value < n)

theorem atPlaces_cons (p : String → Nat → Bool) (item : String) (items : List String) :
    atPlaces p (item :: items) =
      (if p item 0 then [item] else []) ++ atPlaces (fun item place => p item (place + 1)) items := by
  simp only [atPlaces, List.zipIdx_cons', List.filter_cons, List.filter_map]
  cases p item 0 <;> simp [Function.comp_def]

theorem atPlaces_concat (p : String → Nat → Bool) (items : List String) (item : String) :
    atPlaces p (items ++ [item]) =
      atPlaces p items ++ if p item items.length then [item] else [] := by
  simp only [atPlaces, List.zipIdx_append, List.filter_append, List.map_append]
  cases hp : p item items.length <;> simp [hp]

theorem atPlaces_congr {p q : String → Nat → Bool}
    (h : ∀ place (hp : place < items.length), p items[place] place = q items[place] place) :
    atPlaces p items = atPlaces q items := by
  refine congrArg (List.map Prod.fst) (List.filter_congr fun entry hm => ?_)
  obtain ⟨item, place⟩ := entry
  have ⟨hp, he⟩ := List.mem_zipIdx' hm
  exact he ▸ h place hp

theorem withoutFirst_cons (n : Nat) (value item : String) (items : List String) :
    withoutFirst n value (item :: items) =
      if item = value ∧ 0 < n then withoutFirst (n - 1) value items
      else item :: withoutFirst n value items := by
  simp only [withoutFirst, atPlaces_cons]
  by_cases hv : item = value
  case neg => simp [hv]
  case pos =>
    cases n <;> simp [hv]

theorem withoutFirst_concat (n : Nat) (value : String) (items : List String) (item : String) :
    withoutFirst n value (items ++ [item]) = withoutFirst n value items ++
      if item = value ∧ items.count value < n then [] else [item] := by
  have hp : atPlaces (fun other place => ¬(other = value ∧
      ((items ++ [item]).take place).count value < n)) items = withoutFirst n value items :=
    atPlaces_congr fun place hp => by rw [List.take_append_of_le_length (Nat.le_of_lt hp)]
  rw [withoutFirst, atPlaces_concat, hp, List.take_left]
  by_cases h : item = value ∧ items.count value < n <;> simp [h]

theorem withoutLast_cons (n : Nat) (value item : String) (items : List String) :
    withoutLast n value (item :: items) =
      if item = value ∧ items.count value < n then withoutLast n value items
      else item :: withoutLast n value items := by
  simp only [withoutLast, atPlaces_cons]
  by_cases h : item = value ∧ items.count value < n <;> simp [h]

-- The last occurrences are the first ones of the reversed list.
theorem withoutLast_eq_reverse (n : Nat) (value : String) (items : List String) :
    withoutLast n value items = (withoutFirst n value items.reverse).reverse := by
  induction items
  case nil => rfl
  case cons item items hi =>
    rw [List.reverse_cons, withoutFirst_concat, List.count_reverse, withoutLast_cons, hi]
    split <;> simp

theorem withoutFirst_zero (value : String) (items : List String) :
    withoutFirst 0 value items = items := by
  induction items
  case nil => rfl
  case cons item items hi => rw [withoutFirst_cons, if_neg (by simp), hi]

-- No more of them can go than there are.
theorem withoutFirst_min (n : Nat) (value : String) (items : List String) :
    withoutFirst (min (items.count value) n) value items = withoutFirst n value items := by
  induction items generalizing n
  case nil => rfl
  case cons item items hi =>
    rw [withoutFirst_cons, withoutFirst_cons, ← hi n]
    by_cases hv : item = value
    case neg => simp [hv]
    case pos =>
      subst hv
      cases n
      case zero => simp
      case succ n => simp [← hi n, Nat.succ_min_succ]

theorem length_withoutFirst (n : Nat) (value : String) (items : List String) :
    (withoutFirst n value items).length = items.length - min (items.count value) n := by
  induction items generalizing n
  case nil => rfl
  case cons item items hi =>
    have hc : items.count value ≤ items.length := List.count_le_length
    rw [withoutFirst_cons, List.count_cons]
    by_cases hv : item = value
    case neg =>
      rw [if_neg fun h => hv h.1, List.length_cons, hi]
      simp [hv]
      omega
    case pos =>
      cases n
      case zero => simp [hv, hi]
      case succ n => simp [hv, hi]

theorem removeFirst_eq (value : String) (limit : Nat) (items : List String) :
    removeFirst value limit items = withoutFirst limit value items := by
  fun_induction removeFirst value limit items
  case case1 => rfl
  case case2 => exact (withoutFirst_zero value _).symm
  case case3 limit rest hi => simp [withoutFirst_cons, hi]
  case case4 limit item rest hv hi => simp [withoutFirst_cons, hv, hi]

-- What the walk from the last item on comes to at an item.
def takeOut (value : String) (limit : Nat) (item : String) :
    Nat × List String → Nat × List String
  | (gone, kept) => if gone < limit ∧ item = value then (gone + 1, kept) else (gone, item :: kept)

theorem foldr_takeOut (value : String) (limit : Nat) (items : List String) :
    items.foldr (takeOut value limit) (0, []) =
      (min (items.count value) limit, withoutLast limit value items) := by
  induction items
  case nil => rw [List.foldr_nil, List.count_nil, Nat.zero_min]; rfl
  case cons item items hi =>
    rw [List.foldr_cons, hi, takeOut, withoutLast_cons, List.count_cons]
    by_cases hv : item = value
    case neg => simp [hv]
    case pos =>
      rw [if_pos (beq_iff_eq.mpr hv)]
      by_cases hl : items.count value < limit
      case pos =>
        rw [Nat.min_eq_left (Nat.le_of_lt hl), if_pos ⟨hl, hv⟩, if_pos ⟨hv, hl⟩, Nat.min_eq_left hl]
      case neg =>
        have hm : limit ≤ items.count value := Nat.not_lt.mp hl
        rw [Nat.min_eq_right hm, if_neg fun h => Nat.lt_irrefl _ h.1, if_neg fun h => hl h.2,
          Nat.min_eq_right (Nat.le_add_right_of_le hm)]

theorem removeLast_eq (value : String) (limit : Nat) (items : List String) :
    removeLast value limit items = withoutLast limit value items :=
  congrArg Prod.snd (foldr_takeOut value limit items)

-- The same walk over places, from the one before `place` on. It fails if there is no item where it
-- looks.
def walk (value : String) (limit : Nat) :
    (place gone : Nat) → List String → Option (Nat × List String)
  | 0, gone, items => some (gone, items)
  | place + 1, gone, items =>
    if gone < limit then do
      let item ← items[place]?
      if item = value then walk value limit place (gone + 1) (items.eraseIdx place)
      else walk value limit place gone items
    else some (gone, items)

theorem foldr_takeOut_of_le (h : limit ≤ gone) (front kept : List String) :
    front.foldr (takeOut value limit) (gone, kept) = (gone, front ++ kept) := by
  induction front
  case nil => rfl
  case cons item front hi =>
    rw [List.foldr_cons, hi, takeOut, if_neg fun hr => Nat.not_lt.mpr h hr.1, List.cons_append]

-- What is behind the place where the walk has come to was looked at already.
theorem walk_append (value : String) (limit : Nat) (front kept : List String) (gone : Nat) :
    walk value limit front.length gone (front ++ kept) =
      some (front.foldr (takeOut value limit) (gone, kept)) := by
  induction front using List.reverseRecOn generalizing gone kept
  case nil => rfl
  case append_singleton front item hi =>
    by_cases hr : gone < limit
    case neg =>
      rw [foldr_takeOut_of_le (Nat.le_of_not_lt hr), List.length_append]
      simp [walk, hr]
    case pos =>
      have hg : (front ++ [item] ++ kept)[front.length]? = some item := by simp
      have he : (front ++ [item] ++ kept).eraseIdx front.length = front ++ kept := by
        rw [List.append_assoc, List.eraseIdx_append_of_length_le (Nat.le_refl _)]
        simp
      rw [List.length_append, List.foldr_append, List.length_singleton, walk, if_pos hr, hg, he,
        List.foldr_cons, List.foldr_nil, takeOut]
      by_cases hv : item = value
      · simp [hv, hr, hi]
      · simp [hv, hr, ← hi]

-- How many occurrences a count takes out.
def counted (count : Int64) (value : String) (items : List String) : Nat :=
  if count = 0 then items.count value else min (items.count value) count.toInt.natAbs

theorem counted_le_count (count : Int64) (value : String) (items : List String) :
    counted count value items ≤ items.count value := by
  rw [counted]
  split
  · exact Nat.le_refl _
  · exact Nat.min_le_left ..

theorem removed_of_nonneg (h : 0 ≤ count) (value : String) (items : List String) :
    removed count value items = withoutFirst (counted count value items) value items := by
  rw [removed, counted]
  by_cases hz : count = 0
  case pos =>
    have hc : items.count value ≤ items.length := List.count_le_length
    rw [if_pos hz, if_pos hz, removeFirst_eq, ← withoutFirst_min, Nat.min_eq_left hc]
  case neg =>
    have hp : 0 < count := Int64.lt_of_le_of_ne h (Ne.symm hz)
    rw [if_neg hz, if_neg hz, if_pos hp, removeFirst_eq, withoutFirst_min]

theorem removed_of_neg (h : count < 0) (value : String) (items : List String) :
    removed count value items = withoutLast (counted count value items) value items := by
  have hz : count ≠ 0 := Int64.ne_of_lt h
  rw [removed, counted, if_neg hz, if_neg hz, if_neg (Int64.lt_asymm h), removeLast_eq,
    withoutLast_eq_reverse, withoutLast_eq_reverse, ← withoutFirst_min, List.count_reverse]

theorem removed_eq (count : Int64) (value : String) (items : List String) :
    removed count value items = if 0 ≤ count
      then withoutFirst (counted count value items) value items
      else withoutLast (counted count value items) value items := by
  split
  case isTrue h => exact removed_of_nonneg h value items
  case isFalse h => exact removed_of_neg (Int64.not_le.mp h) value items

theorem length_removed (count : Int64) (value : String) (items : List String) :
    (removed count value items).length = items.length - counted count value items := by
  have hm : min (items.count value) (counted count value items) = counted count value items :=
    Nat.min_eq_right (counted_le_count ..)
  rw [removed_eq]
  split
  · rw [length_withoutFirst, hm]
  · rw [withoutLast_eq_reverse, List.length_reverse, length_withoutFirst, List.count_reverse,
      List.length_reverse, hm]

theorem walk_eq (h : count < 0) (value : String) (items : List String) :
    walk value count.toInt.natAbs items.length 0 items =
      some (counted count value items, removed count value items) := by
  have hz : count ≠ 0 := Int64.ne_of_lt h
  have hw := walk_append value count.toInt.natAbs items [] 0
  rw [List.append_nil, foldr_takeOut] at hw
  rw [hw, counted, if_neg hz, removed, if_neg hz, if_neg (Int64.lt_asymm h), removeLast_eq]

theorem lrem_of_live? (h : store.live? now key = some ⟨.list items, deadline?⟩) (count : Int64)
    (value : String) : store.lrem now key count value =
      let kept := removed count value items
      let settled := store.settle now key
      (.ok (counted count value items),
        if kept = [] then settled.erase key else settled.insert key ⟨.list kept, deadline?⟩) := by
  have hc : counted count value items ≤ items.length :=
    (counted_le_count ..).trans List.count_le_length
  rw [lrem, find?_settle_self, h]
  dsimp only
  rw [length_removed, Nat.sub_sub_self hc]

-- Out of a list in the cache go as many occurrences as were asked for, the first ones or the last
-- ones, and no others; the list keeps its deadline, and is gone once nothing is left of it. The walk
-- from its end never looks beside it.
theorem taken_out_as_counted (h : store.live? now key = some ⟨.list items, deadline?⟩)
    (count : Int64) (value : String) :
    let n := counted count value items
    let kept := if 0 ≤ count then withoutFirst n value items else withoutLast n value items
    let after := (store.lrem now key count value).2
    (store.lrem now key count value).1 = .ok n ∧
      after.find? key = (if kept = [] then none else some ⟨.list kept, deadline?⟩) ∧
      (∀ other, other ≠ key → after.find? other = store.find? other) ∧
      (count < 0 → kept = (withoutFirst n value items.reverse).reverse ∧
        walk value count.toInt.natAbs items.length 0 items = some (n, kept)) := by
  intro n kept after
  have hk : removed count value items = kept := removed_eq count value items
  have hr := lrem_of_live? h count value
  refine ⟨congrArg Prod.fst hr, ?own, ?others, fun hn => ⟨?reversed, ?walked⟩⟩
  case own =>
    have ha : after = _ := congrArg Prod.snd hr
    rw [ha, hk]
    dsimp only
    split
    · rw [find?_erase, if_pos rfl]
    · rw [find?_insert, if_pos rfl]
  case others => exact (becomes_lrem store key count value).others
  case reversed => exact (if_neg (Int64.not_le.mpr hn)).trans (withoutLast_eq_reverse ..)
  case walked => exact hk ▸ walk_eq hn value items

-- The least count there is takes out all occurrences, another one the last two of three.
theorem taken_out_from_end :
    let store := ofList [("tokens", ⟨.list ["x", "b", "x", "a", "x"], some 5000⟩)]
    (store.lrem 1000 "tokens" (-2) "x").1 = .ok 2 ∧
      (store.lrem 1000 "tokens" (-2) "x").2.find? "tokens" =
        some ⟨.list ["x", "b", "a"], some 5000⟩ ∧
      (store.lrem 1000 "tokens" Int64.minValue "x").1 = .ok 3 ∧
      (store.lrem 1000 "tokens" Int64.minValue "x").2.find? "tokens" =
        some ⟨.list ["b", "a"], some 5000⟩ := by
  intro store
  have hl : store.live? 1000 "tokens" =
      some ⟨.list ["x", "b", "x", "a", "x"], some 5000⟩ := by rfl
  have ⟨hr, hf, _⟩ := taken_out_as_counted hl (-2) "x"
  have ⟨hr', hf', _⟩ := taken_out_as_counted hl Int64.minValue "x"
  exact ⟨hr, hf, hr', hf'⟩

end Entitlement.Store
