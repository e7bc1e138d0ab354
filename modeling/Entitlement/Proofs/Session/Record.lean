import Entitlement.Session.Record
import Entitlement.Proofs.Grant.Blob
import Entitlement.Proofs.Json.Value
/-!
What is read back from the bytes of a record. The declared fields are those that were written. A
record is read back as a whole if its other fields are such as are read: with the values given to
its declared fields replaced, a record that was read is read back, unless a field is a double. But
with another field under the name of a declared one nothing is read back at all.
-/

namespace Entitlement

open Json (Raw)

-- If the bytes are a record at all, it is one of this user.
def Record.Belongs (user : String) (data : ByteArray) : Prop :=
  ∀ record, decode? data = some record → record.user.id = user

-- No other fields, neither in the record nor in its user.
structure Record.Bare (record : Record) : Prop where
  user : record.user.extra = []
  extra : record.extra = []

-- Other fields as they are read: under names that are not declared, and each of them is read again
-- from its own tree.
structure Record.Kept (depth : Nat) (own : List String) (extra : Fields Json) : Prop where
  ascending : extra.Ascending
  foreign : ∀ name ∈ own, name ∉ extra.names
  returns : ∀ field ∈ extra, field.2.Returns depth

structure Record.Sound (record : Record) : Prop where
  user : Kept (Json.maxDepth - 2) User.ownNames record.user.extra
  extra : Kept (Json.maxDepth - 1) ownNames record.extra

-- No double in any other field.
def Record.isExact (record : Record) : Bool :=
  Json.fieldsExact record.user.extra && Json.fieldsExact record.extra

-- Other values for fields that are declared.
def Record.revised (record : Record) (uid perms : String) (full? : Option String) : Record :=
  { record with uid, full?, user := { record.user with perms } }

-- The record with fields that are attached to it one after another.
def Record.attach (record : Record) (fields : List (String × Json)) : Record :=
  fields.foldl (fun record field => record.withField field.1 field.2) record

-- The declared fields of a record are those of another one. Only where that one has no full list
-- apart, another field may have been taken for it.
structure Record.Alike (record other : Record) : Prop where
  uid : record.uid = other.uid
  id : record.user.id = other.user.id
  perms : record.user.perms = other.user.perms
  full? : ∀ blob, other.full? = some blob → record.full? = some blob

namespace Record

variable {record found : Record} {user : User}

variable {extra : Fields Json}

theorem kept_nil (depth : Nat) (own : List String) : Kept depth own [] where
  ascending := List.Pairwise.nil
  foreign _ _ := List.not_mem_nil
  returns := List.forall_mem_nil _

theorem kept_of_extraOf? (h : extraOf? depth own members = some extra)
    (he : Json.fieldsExact extra) : Kept depth own extra := by
  rw [extraOf?] at h
  simp only [Option.bind_eq_bind, Option.bind_eq_some_iff] at h
  obtain ⟨others, hm, ⟨⟩⟩ := h
  have hr : ∀ entry ∈ others, entry.1 ∉ own ∧ ∃ tree, Json.ofRaw? depth tree = some entry.2 := by
    intro entry hent
    obtain ⟨member, hf, hr⟩ := Raw.exists_of_mem_mapM hm hent
    simp only [Option.bind_eq_some_iff] at hr
    obtain ⟨value, hv, ⟨⟩⟩ := hr
    exact ⟨by simpa using (List.mem_filter.mp hf).right, member.2, hv⟩
  refine ⟨Fields.ofList_ascending others, fun name hn hx => ?_, fun field hf => ?_⟩
  · obtain ⟨field, hf, hx⟩ := List.mem_map.mp hx
    exact (hr field (Fields.mem_of_mem_ofList hf)).left (hx ▸ hn)
  · obtain ⟨_, tree, ht⟩ := hr field (Fields.mem_of_mem_ofList hf)
    exact Json.returns_of_ofRaw? tree ht (Json.isExact_of_mem_fields he field hf)

theorem Kept.extraOf? (h : Kept depth own extra) (hd : ∀ member ∈ declared, member.1 ∈ own) :
    Record.extraOf? depth own (declared ++ Json.membersOf extra) = some extra := by
  have hn : declared.filter (fun member => !own.contains member.1) = [] := by
    apply List.filter_eq_nil_iff.mpr
    intro member hm
    simp [hd member hm]
  have hf : (Json.membersOf extra).filter (fun member => !own.contains member.1) =
      Json.membersOf extra := by
    apply List.filter_eq_self.mpr
    intro member hm
    have ⟨field, hx, he⟩ := List.mem_map.mp hm
    have ho : field.1 ∉ own := fun ho => h.foreign _ ho (List.mem_map_of_mem hx)
    simpa [← he] using ho
  rw [Record.extraOf?, List.filter_append, hn, hf, List.nil_append, Json.membersOf]
  rw [Raw.mapM_map fun field hx => ?_]
  · exact congrArg some (Fields.ofList_of_perm h.ascending (.refl _))
  · simp only [show Json.ofRaw? depth field.2.toRaw = some field.2 from h.returns field hx]
    rfl

def userMembers (user : User) : List (String × Raw) :=
  ("id", .ofText user.id) :: ("perms", .ofText user.perms) :: Json.membersOf user.extra

theorem userToRaw_eq (user : User) : userToRaw user = .object (Raw.ofNamed (userMembers user)) := by
  rw [userToRaw, Json.fieldsToRaw_eq]
  rfl

theorem userOfRaw?_userToRaw (h : Kept depth User.ownNames user.extra) :
    userOfRaw? depth (userToRaw user) = some user := by
  have hd : ∀ member ∈ [("id", Raw.ofText user.id), ("perms", Raw.ofText user.perms)],
      member.1 ∈ User.ownNames := by
    simp [User.ownNames]
  have hi : Raw.required? "id" (userMembers user) = some (.ofText user.id) :=
    Raw.required?_append_membersOf (h.foreign "id" (by decide)) [_, _]
  have hp : Raw.required? "perms" (userMembers user) = some (.ofText user.perms) :=
    Raw.required?_append_membersOf (h.foreign "perms" (by decide)) [_, _]
  have he : extraOf? depth User.ownNames (userMembers user) = some user.extra := h.extraOf? hd
  rw [userToRaw_eq, userOfRaw?]
  simp [Raw.named?_ofNamed, hi, hp, he, Raw.text?_ofText]

-- The fields that were written come first, so that no other field can take their place.
theorem alike_user (h : userOfRaw? depth (userToRaw user) = some other) :
    other.id = user.id ∧ other.perms = user.perms := by
  rw [userToRaw_eq, userOfRaw?] at h
  simp only [Raw.named?_ofNamed, Option.bind_eq_bind, Option.bind_some, Option.bind_eq_some_iff] at h
  obtain ⟨tree, hi, id, hti, tree', hp, perms, htp, extra, _, ⟨⟩⟩ := h
  have hid : tree = .ofText user.id := Raw.eq_of_required? hi (Raw.valuesOf_cons ..)
  have hperms : tree' = .ofText user.perms := Raw.eq_of_required? hp (Raw.valuesOf_cons ..)
  rw [hid, Raw.text?_ofText] at hti
  rw [hperms, Raw.text?_ofText] at htp
  exact ⟨(Option.some.inj hti).symm, (Option.some.inj htp).symm⟩

theorem writable_userToRaw (user : User) : (userToRaw user).Writable := by
  rw [userToRaw_eq]
  refine Raw.membersWritable_ofNamed fun member hm => ?_
  rcases hm with _ | ⟨_, _ | ⟨_, hm⟩⟩
  · exact Raw.writable_ofText user.id
  · exact Raw.writable_ofText user.perms
  · exact Json.writable_of_mem_membersOf hm

-- The declared fields.
def members (record : Record) : List (String × Raw) :=
  ("uid", .ofText record.uid) :: ("user", userToRaw record.user) ::
    (record.full?.map fun full => ("fullperms", .ofText full)).toList

theorem toRaw_eq (record : Record) :
    record.toRaw = .object (Raw.ofNamed (record.members ++ Json.membersOf record.extra)) := by
  rw [toRaw, Json.fieldsToRaw_eq, members]
  cases record.full? <;> rfl

theorem writable_toRaw (record : Record) : record.toRaw.Writable := by
  rw [toRaw_eq]
  refine Raw.membersWritable_ofNamed fun member hm => ?_
  rcases List.mem_append.mp hm with hm | hm
  case inl =>
    rcases hm with _ | ⟨_, _ | ⟨_, hm⟩⟩
    · exact Raw.writable_ofText record.uid
    · exact writable_userToRaw record.user
    · have ⟨full, _, he⟩ := Option.map_eq_some_iff.mp (Option.mem_toList.mp hm)
      exact he ▸ Raw.writable_ofText full
  case inr => exact Json.writable_of_mem_membersOf hm

-- Reading what was written comes down to reading the tree of words.
theorem decode?_encode (record : Record) : decode? record.encode = ofRaw? record.toRaw := by
  rw [decode?, encode, Text.fromUTF8?_toUTF8, Option.bind_some, parse?, text, String.toList_ofList,
    Raw.parse?_compact record.writable_toRaw, Option.bind_some]

theorem alike_of_decode?_encode (hd : decode? record.encode = some found) :
    found.Alike record := by
  rw [decode?_encode, toRaw_eq, ofRaw?] at hd
  simp only [Raw.named?_ofNamed, Option.bind_eq_bind, Option.bind_some, Option.bind_eq_some_iff]
    at hd
  obtain ⟨uid?, hu, full?, hfull, uid, htu, tree, ht, user, htt, full, htf, _, _, ⟨⟩⟩ := hd
  have huid : uid? = some (.ofText record.uid) := Raw.eq_of_member? hu (Raw.valuesOf_cons ..)
  have huser : tree = userToRaw record.user := Raw.eq_of_required? ht (Raw.valuesOf_cons ..)
  obtain ⟨hi, hp⟩ := alike_user (huser ▸ htt)
  rw [huid] at htu
  refine ⟨Option.some.inj (htu.symm.trans (Raw.text?_ofText record.uid)), hi, hp, fun blob hf => ?_⟩
  rw [members, hf] at hfull
  have hblob : full? = some (.ofText blob) := Raw.eq_of_member? hfull (Raw.valuesOf_cons ..)
  have hs : Raw.orNull? Raw.text? (.ofText blob) = some (some blob) :=
    congrArg (Option.map some) (Raw.text?_ofText blob)
  rw [hblob] at htf
  exact Option.some.inj (htf.symm.trans hs)

theorem belongs_encode (record : Record) : Belongs record.user.id record.encode :=
  fun _ hd => (alike_of_decode?_encode hd).id

theorem member?_declared (hn : name ∈ ownNames) (h : record.Sound) :
    Raw.member? name (record.members ++ Json.membersOf record.extra) =
      Raw.member? name record.members :=
  Raw.member?_append_membersOf (h.extra.foreign name hn) record.members

theorem Sound.ofRaw?_toRaw (h : record.Sound) : ofRaw? record.toRaw = some record := by
  have he : extraOf? (Json.maxDepth - 1) ownNames
      (record.members ++ Json.membersOf record.extra) = some record.extra := by
    refine h.extra.extraOf? ?_
    cases hf : record.full? <;> simp [members, ownNames, hf]
  have hi : Raw.member? "uid" record.members = some (some (.ofText record.uid)) := by
    cases hf : record.full? <;> simp [Raw.member?, Raw.valuesOf, members, hf]
  have hu : Raw.member? "user" record.members = some (some (userToRaw record.user)) := by
    cases hf : record.full? <;> simp [Raw.member?, Raw.valuesOf, members, hf]
  have hp : Raw.member? "fullperms" record.members =
      some (record.full?.map Raw.ofText) := by
    cases hf : record.full? <;> simp [Raw.member?, Raw.valuesOf, members, hf]
  have hf : (record.full?.map Raw.ofText).elim (some none) (Raw.orNull? Raw.text?) =
      some record.full? := by
    cases record.full?
    case none => rfl
    case some full => exact congrArg (Option.map some) (Raw.text?_ofText full)
  have ht : Option.elim (some (Raw.ofText record.uid)) (some "") Raw.text? = some record.uid :=
    Raw.text?_ofText record.uid
  rw [← member?_declared (by simp [ownNames]) h] at hi hu hp
  rw [toRaw_eq, ofRaw?]
  simp only [Raw.named?_ofNamed, Raw.required?, hi, hu, hp, hf, ht, he, userOfRaw?_userToRaw h.user,
    Option.bind_eq_bind, Option.bind_some, Option.join_some]
  rfl

theorem Sound.decode?_encode (h : record.Sound) : decode? record.encode = some record := by
  rw [Record.decode?_encode, h.ofRaw?_toRaw]

theorem Bare.decode?_encode (h : record.Bare) : decode? record.encode = some record := by
  refine Sound.decode?_encode ⟨?_, ?_⟩
  · exact h.user ▸ kept_nil _ _
  · exact h.extra ▸ kept_nil _ _

theorem kept_of_userOfRaw? (h : userOfRaw? depth tree = some user)
    (he : Json.fieldsExact user.extra) : Kept depth User.ownNames user.extra := by
  match tree with
  | .object members =>
    rw [userOfRaw?] at h
    simp only [Option.bind_eq_bind, Option.bind_eq_some_iff] at h
    obtain ⟨_, _, _, _, _, _, _, _, _, _, extra, hx, ⟨⟩⟩ := h
    exact kept_of_extraOf? hx he

theorem sound_of_ofRaw? (h : ofRaw? tree = some record) (he : record.isExact) : record.Sound := by
  have ⟨hu, he⟩ := Bool.and_eq_true_iff.mp he
  match tree with
  | .object members =>
    rw [ofRaw?] at h
    simp only [Option.bind_eq_bind, Option.bind_eq_some_iff] at h
    obtain ⟨_, _, _, _, _, _, _, _, _, _, user, ht, _, _, extra, hx, ⟨⟩⟩ := h
    exact ⟨kept_of_userOfRaw? ht hu, kept_of_extraOf? hx he⟩

theorem sound_of_decode? (h : decode? data = some record) (he : record.isExact) :
    record.Sound := by
  have ⟨text, _, hp⟩ := Option.bind_eq_some_iff.mp h
  have ⟨tree, _, ho⟩ := Option.bind_eq_some_iff.mp hp
  exact sound_of_ofRaw? ho he

-- A record that was read is read again as it is, also with other values in its declared fields.
theorem decode?_encode_revised (hd : decode? data = some record) (he : record.isExact)
    (uid perms : String) (full? : Option String) :
    decode? (record.revised uid perms full?).encode = some (record.revised uid perms full?) := by
  have hs : (record.revised uid perms full?).Sound :=
    ⟨(sound_of_decode? hd he).user, (sound_of_decode? hd he).extra⟩
  exact hs.decode?_encode

theorem attach_eq (record : Record) (fields : List (String × Json)) :
    record.attach fields = { record with
      extra := fields.foldl (fun extra field => extra.insert field.1 field.2) record.extra } := by
  induction fields generalizing record
  case nil => rfl
  case cons field fields hi => exact hi (record.withField field.1 field.2)

theorem attach_create (user : String) (grants : List Grant) (fields : List (String × Json)) :
    (create user grants).attach fields =
      { create user grants with extra := Fields.ofList fields } :=
  attach_eq ..

-- Of the fields of one name only the last one is kept.
theorem kept_ofList (hn : ∀ name ∈ own, name ∉ fields.map Prod.fst)
    (hr : ∀ field ∈ fields, field.2.Returns depth) : Kept depth own (Fields.ofList fields) where
  ascending := Fields.ofList_ascending fields
  foreign name ho hm := hn name ho (Fields.mem_names_ofList.mp hm)
  returns field hm := hr field (Fields.mem_of_mem_ofList hm)

-- A declared field must not come twice, and the full list is a declared field once it is kept apart.
theorem exists_member?_of_ofRaw? {named : List (String × Raw)}
    (h : ofRaw? (.object (Raw.ofNamed named)) = some record) (hn : name ∈ ownNames) :
    ∃ found, Raw.member? name named = some found := by
  rw [ofRaw?] at h
  simp only [Raw.named?_ofNamed, Option.bind_eq_bind, Option.bind_some, Option.bind_eq_some_iff]
    at h
  obtain ⟨uid?, hu, full?, hf, _, _, tree, ht, _⟩ := h
  simp only [ownNames, List.mem_cons, List.not_mem_nil, or_false] at hn
  obtain rfl | rfl | rfl := hn
  · exact ⟨uid?, hu⟩
  · exact ⟨some tree, Option.join_eq_some_iff.mp ht⟩
  · exact ⟨full?, hf⟩

theorem decode?_encode_eq_none {blob : String} (hf : record.full? = some blob)
    (hn : name ∈ ownNames) (hx : name ∈ record.extra.names) :
    decode? record.encode = none := by
  have hm : name ∈ record.members.map Prod.fst := by
    rw [members, hf]
    exact hn
  have hx : name ∈ (Json.membersOf record.extra).map Prod.fst := by
    rw [Json.membersOf, List.map_map]
    exact hx
  rw [decode?_encode, toRaw_eq]
  by_contra hs
  obtain ⟨found, hs⟩ := Option.ne_none_iff_exists'.mp hs
  obtain ⟨other, ho⟩ := exists_member?_of_ofRaw? hs hn
  rw [Raw.member?_eq_none hm hx] at ho
  cases ho

-- Members in any order. The double does not count, for a later member has its name.
def nestedText : String :=
  "\x7b\"z\":1.5,\"uid\":\"old\",\"user\":\x7b\"name\":\x7b\"b\":[null,-9223372036854775808]," ++
    "\"a\":18446744073709551615\x7d,\"id\":\"u\",\"perms\":\"p\"\x7d,\"ip\":null,\"z\":[\"\\u00e9\"]\x7d"

def nestedRevised : String :=
  "\x7b\"uid\":\"new\",\"user\":\x7b\"id\":\"u\",\"perms\":\"q\",\"name\":" ++
    "\x7b\"a\":18446744073709551615,\"b\":[null,-9223372036854775808]\x7d\x7d," ++
    "\"fullperms\":\"p\",\"ip\":null,\"z\":[\"é\"]\x7d"

theorem decode?_encode_revised_nested :
    ∃ record, decode? nestedText.toUTF8 = some record ∧ record.isExact ∧
      (record.revised "new" "q" (some "p")).text = nestedRevised ∧
      decode? (record.revised "new" "q" (some "p")).encode =
        some (record.revised "new" "q" (some "p")) := by
  have hx : (decode? nestedText.toUTF8).any fun record =>
      record.isExact && (record.revised "new" "q" (some "p")).text = nestedRevised := by
    decide +kernel
  have ⟨record, hd, hx⟩ := (Option.any_eq_true _ _).mp hx
  have ⟨he, ht⟩ := Bool.and_eq_true_iff.mp hx
  exact ⟨record, hd, he, of_decide_eq_true ht,
    decode?_encode_revised hd he "new" "q" (some "p")⟩

end Record
end Entitlement
