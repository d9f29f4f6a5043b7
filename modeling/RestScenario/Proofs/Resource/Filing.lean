import RestScenario.Proofs.Resource.Records
import RestScenario.Proofs.Resource.Site

/-!
# Which parameters share a record

A resource files a parameter under one text: the tag of its kind and a colon, the segment it belongs to
and an underscore, and its name. No tag has a colon, so the key tells the kind. But segments and names
may have underscores, and where the segment ends in the text is not marked: `users` with `id_no` is
written like `users_id` with `no`. So two parameters of one kind have one key exactly when segment and
name are the same, or when the longer segment runs over into the name that stands behind the shorter one
(`Filing.text_eq_iff`).

All parameters of a resource outside its path belong to the last literal of the path, so these are told
apart. Variables of one path that run together are not: the record of one of them is what the other is
looked up with (`parameter_filed_under_kind_segment_and_name`).
-/

namespace RestScenario

/-! ## Filings -/

/-- What the key of a parameter holds behind its kind. -/
structure Filing where
  segment : Option String
  name : String
deriving DecidableEq

namespace Filing

variable {x y : Filing}

/-- The text that is written behind the kind. -/
def text (x : Filing) : String :=
  match x.segment with
  | some s => s ++ "_" ++ x.name
  | none => x.name

/-- The segment of `x` is longer than that of `y`: the name of `y` starts with the rest of it, goes on
with an underscore, and ends with the name of `x`. -/
def Overruns (x y : Filing) : Prop :=
  ∃ s, x.segment = some s ∧
    match y.segment with
    | none => y.name = s ++ "_" ++ x.name
    | some t => ∃ rest, s = t ++ "_" ++ rest ∧ y.name = rest ++ "_" ++ x.name

/-- One of two segments runs over into the name behind the other. -/
def RunTogether (x y : Filing) : Prop := x.Overruns y ∨ y.Overruns x

theorem RunTogether.symm (h : x.RunTogether y) : y.RunTogether x := Or.symm h

/-- A segment as long as the other does not run over. -/
theorem not_overruns_of_segment_eq (h : x.segment = y.segment) : ¬ x.Overruns y := by
  rintro ⟨s, hs, hover⟩
  rw [← h, hs] at hover
  obtain ⟨rest, hlonger, -⟩ := hover
  have := congrArg String.length hlonger
  simp only [String.length_append] at this
  have hmark : "_".length = 1 := rfl
  omega

theorem text_eq_of_overruns (h : x.Overruns y) : x.text = y.text := by
  obtain ⟨s, hs, hover⟩ := h
  unfold text
  rw [hs]
  cases hy : y.segment with
  | none =>
    rw [hy] at hover
    exact hover.symm
  | some t =>
    rw [hy] at hover
    obtain ⟨rest, rfl, hname⟩ := hover
    simp only [hname, String.append_assoc]

/-- Behind the end of the shorter segment the rest of the longer one is a part of the name. -/
theorem eq_or_overruns_of_append {s t n n' : String} {rest : List Char}
    (hlonger : t.toList = s.toList ++ rest) (hname : '_' :: n.toList = rest ++ '_' :: n'.toList) :
    (⟨some s, n⟩ : Filing) = ⟨some t, n'⟩ ∨ Overruns ⟨some t, n'⟩ ⟨some s, n⟩ := by
  cases rest with
  | nil =>
    rw [List.append_nil] at hlonger
    rw [List.nil_append, List.cons.injEq] at hname
    obtain rfl := String.toList_injective hlonger
    obtain rfl := String.toList_injective hname.2
    exact .inl rfl
  | cons mark rest =>
    rw [List.cons_append, List.cons.injEq] at hname
    obtain ⟨rfl, hname⟩ := hname
    refine .inr ⟨t, rfl, String.ofList rest, String.toList_injective ?_, String.toList_injective ?_⟩
    · simpa using hlonger
    · simpa using hname

/-- **A text does not mark where the segment ends.** -/
theorem text_eq_iff : x.text = y.text ↔ x = y ∨ x.RunTogether y := by
  constructor
  · intro h
    obtain ⟨s, n⟩ := x
    obtain ⟨t, n'⟩ := y
    cases s with
    | none =>
      cases t with
      | none => exact .inl (congrArg (Filing.mk none) h)
      | some t => exact .inr (.inr ⟨t, rfl, h⟩)
    | some s =>
      cases t with
      | none => exact .inr (.inl ⟨s, rfl, h.symm⟩)
      | some t =>
        have hchars : s.toList ++ '_' :: n.toList = t.toList ++ '_' :: n'.toList := by
          simpa [text] using congrArg String.toList h
        rcases List.append_eq_append_iff.1 hchars with ⟨rest, hlonger, hname⟩ | ⟨rest, hlonger, hname⟩
        · exact (eq_or_overruns_of_append hlonger hname).imp_right .inr
        · exact (eq_or_overruns_of_append hlonger hname).imp Eq.symm .inl
  · rintro (rfl | h | h)
    · rfl
    · exact text_eq_of_overruns h
    · exact (text_eq_of_overruns h).symm

end Filing

/-! ## Keys -/

theorem Place.not_mem_tag (place : Place) : ':' ∉ place.tag.toList := by
  cases place with
  | body => exact (by decide : ':' ∉ "BodyParam".toList)
  | _ => decide

theorem Param.isPath_eq_of_tag_eq {p q : Param} (h : p.place.tag = q.place.tag) :
    p.isPath = q.isPath := by
  unfold isPath
  cases hp : p.place <;> cases hq : q.place <;> simp [hp, hq, Place.tag] at h ⊢

/-- What a parameter of an action is filed under, behind its kind. -/
def Action.filing (a : Action) (p : Param) : Filing := ⟨a.segmentOf? p, p.name⟩

/-- What the parameter was filed under that made the record. -/
def ParamRecord.filing (r : ParamRecord) : Filing := ⟨r.segment, r.source.name⟩

namespace Action

variable {a b : Action} {p q : Param}

theorem toList_paramKey :
    (a.paramKey p).toList = p.place.tag.toList ++ ':' :: (a.filing p).text.toList := by
  unfold paramKey filing Filing.text
  cases a.segmentOf? p <;> simp

/-- Keys are the same where the kinds are and the texts behind them. -/
theorem paramKey_eq_iff : a.paramKey p = b.paramKey q ↔
    p.place.tag = q.place.tag ∧ (a.filing p).text = (b.filing q).text := by
  rw [← String.toList_inj, toList_paramKey, toList_paramKey]
  constructor
  · intro h
    have htags := congrArg (List.takeWhile (· ≠ ':')) h
    rw [takeWhile_append_cons (Place.not_mem_tag _), takeWhile_append_cons (Place.not_mem_tag _)]
      at htags
    rw [htags, List.append_cancel_left_eq, List.cons.injEq] at h
    exact ⟨String.toList_injective htags, String.toList_injective h.2⟩
  · rintro ⟨htag, htext⟩
    rw [htag, htext]

/-- **What the keys of one path tell apart.** -/
theorem paramKey_eq_iff_of_path_eq (hpath : a.path = b.path) : a.paramKey p = b.paramKey q ↔
    p.place.tag = q.place.tag ∧ (a.filing p = b.filing q ∨
      p.isPath = true ∧ (a.filing p).RunTogether (b.filing q)) := by
  rw [paramKey_eq_iff, Filing.text_eq_iff]
  refine and_congr_right fun htag => or_congr_right (iff_and_self.2 fun htogether => ?_)
  by_contra hplain
  have hsegment : (a.filing p).segment = (b.filing q).segment := by
    unfold filing segmentOf?
    rw [if_neg hplain, if_neg (Param.isPath_eq_of_tag_eq htag ▸ hplain), hpath]
  rcases htogether with h | h
  · exact Filing.not_overruns_of_segment_eq hsegment h
  · exact Filing.not_overruns_of_segment_eq hsegment.symm h

end Action

/-! ## Records -/

/-- The record of a parameter is made of a parameter that the resource files under the same key. -/
theorem Resource.exists_record {r : Resource} {a : Action} {p : Param}
    (hparams : r.params = ParamRecord.ofActions r.creation r.actions) (ha : a ∈ r.actions) (hp : p ∈ a.params) :
    ∃ record, r.record? a p = some record ∧ record.name = record.source.name ∧
      ∃ b ∈ r.actions, ∃ q ∈ b.params, b.paramKey q = a.paramKey p ∧ record.source = q ∧
        record.filing = b.filing q := by
  obtain ⟨first, hfirst⟩ := ParamRecord.exists_declaration ha hp
  cases hdeclared : ParamRecord.declarations r.actions (a.paramKey p) with
  | nil => simp [hdeclared] at hfirst
  | cons d rest =>
    have hd : d ∈ ParamRecord.declarations r.actions (a.paramKey p) := by simp [hdeclared]
    obtain ⟨hb, hq, hkey⟩ := ParamRecord.of_mem_declarations hd
    have hrecord : r.record? a p = some { ParamRecord.ofParam r.creation d.1 d.2 with
        involvedVerbs := .ofList ((d :: rest).map (·.1.verb)) } := by
      unfold record?
      rw [hparams, ParamRecord.get?_ofActions, hdeclared]
      rfl
    exact ⟨_, hrecord, rfl, d.1, hb, d.2, hq, hkey, rfl, rfl⟩

/-- **A parameter is filed under its kind, its segment and its name, which the key does not always tell
apart.** Take an accepted catalogue whose paths were read, and a parameter of an action of one of its
resources. There is a record for it, made of a parameter of the same kind, with the same segment and the
same name, unless it is a variable of the path that runs together with another. Of two parameters of the
resource the keys are the same exactly when kind, segment and name are, or when they are variables of the
path that run together. -/
theorem parameter_filed_under_kind_segment_and_name {c : Catalogue} {m : ResourceModel} {key : String}
    {r : Resource} {a : Action} {p : Param} (hread : c.IsRead)
    (hm : ResourceModel.ofCatalogue c = .ok m) (hr : m.get? key = some r) (ha : a ∈ r.actions)
    (hp : p ∈ a.params) :
    (∃ record, r.record? a p = some record ∧ record.name = record.source.name ∧
      record.source.place.tag = p.place.tag ∧ (record.filing = a.filing p ∨
        p.isPath = true ∧ record.filing.RunTogether (a.filing p))) ∧
    ∀ b ∈ r.actions, ∀ q ∈ b.params, a.paramKey p = b.paramKey q ↔
      p.place.tag = q.place.tag ∧ (a.filing p = b.filing q ∨
        p.isPath = true ∧ (a.filing p).RunTogether (b.filing q)) := by
  obtain ⟨-, s, hs, rfl⟩ := ResourceModel.exists_site hm hr
  have hsites := Sites.wellFormed_ofCatalogue hread
  have hself := hsites.get?_path_key hs
  have hpath : ∀ b ∈ s.actions, a.path = b.path := fun b hb =>
    (Sites.path_of_mem_actions hsites hself ha).trans (Sites.path_of_mem_actions hsites hself hb).symm
  refine ⟨?_, fun b hb q _ => Action.paramKey_eq_iff_of_path_eq (hpath b hb)⟩
  obtain ⟨record, hrecord, hname, b, hb, q, -, hkey, hsource, hfiling⟩ :=
    Resource.exists_record rfl ha hp
  obtain ⟨htag, hfilings⟩ := (Action.paramKey_eq_iff_of_path_eq (hpath b hb)).1 hkey.symm
  refine ⟨record, hrecord, hname, hsource ▸ htag.symm, ?_⟩
  rw [hfiling]
  exact hfilings.imp Eq.symm (And.imp_right Filing.RunTogether.symm)

namespace Sample

/-- A variable of a path. -/
def inPath (name : String) : Param := ⟨name, .path, .integer, true, none, .null⟩

/-- Reading the order of a user. -/
def readOrder : Action :=
  ⟨.get, ⟨[.literal "users", .var "user_id", .literal "orders", .var "id"]⟩,
    [inPath "user_id", inPath "id"], false, none, none⟩

/-- Reading who has a role of a user. -/
def readRole : Action :=
  ⟨.get, ⟨[.literal "users", .var "role_id", .literal "users_role", .var "id"]⟩,
    [inPath "role_id", inPath "id"], false, none, none⟩

/-- The orders and the roles of users can be read. -/
def register : Catalogue := ⟨[readOrder, readRole]⟩

theorem isRead_register : register.IsRead := by
  intro a ha
  simp only [register, List.mem_cons, List.not_mem_nil, or_false] at ha
  rcases ha with rfl | rfl
  · exact ⟨"/users/\x7buser_id\x7d/orders/\x7bid\x7d", rfl⟩
  · exact ⟨"/users/\x7brole_id\x7d/users_role/\x7bid\x7d", rfl⟩

/-- The resource model of the register. -/
def registerModel : ResourceModel := ((ResourceModel.ofCatalogue register).toOption).getD .empty

end Sample

open Sample in
/-- The order and the user whose order it is do not run together, and both are filed. -/
theorem order_filed_apart_from_user :
    register.IsRead ∧ ResourceModel.ofCatalogue register = .ok registerModel ∧
      ∃ r, registerModel.get? "/users/\x7buser_id\x7d/orders/\x7bid\x7d" = some r ∧
        readOrder ∈ r.actions ∧ inPath "id" ∈ readOrder.params ∧
        (∃ record, r.record? readOrder (inPath "id") = some record ∧
          record.source.place.tag = "PathParam") ∧
        ¬ (⟨some "orders", "id"⟩ : Filing).RunTogether ⟨some "users", "user_id"⟩ := by
  have hm : ResourceModel.ofCatalogue register = .ok registerModel :=
    eq_ok_of_isSome_toOption .empty (by decide +kernel)
  have hactions : (registerModel.get? "/users/\x7buser_id\x7d/orders/\x7bid\x7d").map
      (fun r => r.actions) = some [readOrder] := by decide +kernel
  obtain ⟨r, hr, heq⟩ := Option.map_eq_some_iff.1 hactions
  have ha : readOrder ∈ r.actions := by simp [heq]
  have hp : inPath "id" ∈ readOrder.params := by decide
  obtain ⟨⟨record, hrecord, -, htag, -⟩, hkeys⟩ :=
    parameter_filed_under_kind_segment_and_name isRead_register hm hr ha hp
  refine ⟨isRead_register, hm, r, hr, ha, hp, ⟨record, hrecord, htag⟩, fun htogether => ?_⟩
  have hsame : readOrder.paramKey (inPath "id") = readOrder.paramKey (inPath "user_id") :=
    (hkeys readOrder ha (inPath "user_id") (by decide)).2 ⟨rfl, .inr ⟨rfl, htogether⟩⟩
  exact absurd hsame (by decide)

open Sample in
/-- The holder of a role is looked up with the record of the role. -/
theorem role_holder_filed_as_role :
    register.IsRead ∧ ResourceModel.ofCatalogue register = .ok registerModel ∧
      ∃ r, registerModel.get? "/users/\x7brole_id\x7d/users_role/\x7bid\x7d" = some r ∧
        readRole ∈ r.actions ∧ inPath "id" ∈ readRole.params ∧
        readRole.filing (inPath "id") = ⟨some "users_role", "id"⟩ ∧
        (r.record? readRole (inPath "id")).map ParamRecord.filing = some ⟨some "users", "role_id"⟩ := by
  have hm : ResourceModel.ofCatalogue register = .ok registerModel :=
    eq_ok_of_isSome_toOption .empty (by decide +kernel)
  have hfound : (registerModel.get? "/users/\x7brole_id\x7d/users_role/\x7bid\x7d").map
      (fun r => (r.actions, (r.record? readRole (inPath "id")).map ParamRecord.filing)) =
        some ([readRole], some ⟨some "users", "role_id"⟩) := by decide +kernel
  obtain ⟨r, hr, heq⟩ := Option.map_eq_some_iff.1 hfound
  obtain ⟨hactions, hrecord⟩ := Prod.mk.inj heq
  exact ⟨isRead_register, hm, r, hr, by simp [hactions], by decide, by decide, hrecord⟩

end RestScenario
