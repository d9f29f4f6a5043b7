import RestScenario.Proofs.Resource.Model
import RestScenario.Proofs.Sampling.Building

/-!
# Calls that create end their creation chain

The creation chain of a resource is resolved once, when the model is built; a sampler resolves the
creation anew for every call, within a budget. Both agree: the actions of a call from a template
that starts with `POST` are the last ones of the chain, as many as the budget admits
(`creating_call_ends_creation_chain`).
-/

namespace RestScenario

/-! ## The names of a whole creation -/

/-- The names of the actions that a template which starts with `POST` stands for: the creation chain
of the resource, outermost first, and the other verbs of the template on the resource. -/
def Resource.creationNames (r : Resource) (t : Template) : List String :=
  r.creation.actions.map Action.name ++
    ((t.verbs?.getD []).filter (· ≠ .post)).map fun v => v.name ++ ":" ++ r.key

/-- A limited creation and its target are the end of the whole one. -/
theorem SamplingOptions.limit_eq_drop {options : SamplingOptions} {creators : List Action}
    {entry : Action} (hcheck : options.checkSize = true) (hbudget : 1 ≤ options.budget) :
    (options.limit 1 creators).reverse ++ [entry] =
      (creators.reverse ++ [entry]).drop
        (creators.length + 1 - min options.budget (creators.length + 1)) := by
  unfold limit
  rw [if_pos hcheck, List.drop_append_of_le_length (by simp; omega), List.drop_reverse]
  congr 2
  rcases Nat.le_total options.budget (creators.length + 1) with h | h
  · rw [Nat.min_eq_left h]
    congr 1
    omega
  · rw [Nat.min_eq_right h, List.take_of_length_le (by omega), List.take_of_length_le (by omega)]

namespace ResourceModel

variable {m : ResourceModel} {key name : String} {r : Resource} {t : Template} {v : Verb}
  {entry first : Action}

theorem targetOf_post (hr : m.get? key = some r)
    (hfirst : m.sites.chainStart? r.toSite = some first) :
    m.targetOf key [.post] = .ok first := by
  have start : (r.action? .post).or (m.sites.creatorsFor r.path "").head? = some first := hfirst
  unfold targetOf
  rw [resource_eq hr]
  simp [bind, Except.bind, start]

theorem targetOf_other (hr : m.get? key = some r) (hv : v ≠ .post)
    (hentry : r.action? v = some entry) : m.targetOf key [.post, v] = .ok entry := by
  unfold targetOf
  rw [show [Verb.post, v].find? (· ≠ .post) = some v by simp [hv]]
  unfold actionOf
  rw [resource_eq hr]
  simp only [bind, Except.bind, hentry]

/-- **Chain and plan agree.** A template that starts with `POST` aims at an action such that the
whole creation ends with that action. The plan before it takes the creators of the whole creation as
far as the budget goes; it looks once for each of them, and once more where the chain is incomplete. -/
theorem exists_aim (hsites : m.sites.WellFormed) (hkey : r.key = key)
    (hr : m.get? key = some r) (hs : m.sites.get? key = some r.toSite)
    (hcreation : r.creation = m.sites.chainOf r.toSite)
    {rest : List Verb} (hverbs : t.verbs? = some (.post :: rest))
    (hrest : rest = [] ∨ ∃ v ∈ r.ownVerbs, v ≠ .post ∧ rest = [v])
    (hcreatable : m.sites.isCreatable r.toSite = true) :
    ∃ entry creators, m.targetOf key (.post :: rest) = .ok entry ∧
      r.creationNames t = (creators.reverse ++ [entry]).map Action.name ∧
      creators.length + 1 = rest.length + 1 + (r.creation.length - 1) ∧
      ∀ options, creationPlan m.sites options entry 1 = (options.limit 1 creators,
        options.ending 1 (creators.length + if r.creation.isComplete then 0 else 1)
          r.creation.isComplete) := by
  have hself := hsites.get?_path_key hs
  obtain ⟨first, hfirst⟩ := Sites.exists_chainStart hself hcreatable
  obtain ⟨hpost, hlevels⟩ := Sites.of_chainStart? hsites hself hfirst
  have hextended : r.creation = m.sites.extendChain first [] := by
    rw [hcreation]
    unfold Sites.chainOf
    rw [hfirst]
  have hchain : r.creation.actions = (creatorsAbove m.sites first).reverse ++ [first] := by
    rw [hextended, extendChain_actions]
  have hlength : r.creation.length = (creatorsAbove m.sites first).length + 1 := by
    unfold CreationChain.length
    rw [hchain]
    simp
  rcases hrest with rfl | ⟨v, hown, hv, rfl⟩
  · -- The template aims at the last action of the chain itself.
    refine ⟨first, creatorsAbove m.sites first, targetOf_post hr hfirst, ?_, ?_, fun options => ?_⟩
    · unfold Resource.creationNames
      rw [hverbs, hchain]
      simp
    · rw [hlength]
      simp
      omega
    · rw [creationPlan_post hpost, hextended]
      rfl
  · -- It aims at an action of the resource, which follows the whole chain.
    obtain ⟨entry, hentry⟩ : ∃ entry, r.action? v = some entry := by
      obtain ⟨a, ha, hverb⟩ := List.mem_map.1 hown
      refine Option.isSome_iff_exists.1 (List.find?_isSome.2 ⟨a, ha, ?_⟩)
      simpa using hverb
    have hmem := Sites.mem_of_action? hentry
    have hverb := Sites.verb_of_action? hentry
    have hcreator : (m.sites.creatorsFor entry.path entry.name).head? = some first := by
      rw [Sites.head?_creatorsFor_action hsites hself hmem (hverb ▸ hv), hfirst]
    have hname : entry.name = v.name ++ ":" ++ r.key := by
      unfold Action.name
      rw [hverb, (hsites.action hs hmem).1, hkey]
    refine ⟨entry, first :: creatorsAbove m.sites first, targetOf_other hr hv hentry, ?_, ?_,
      fun options => ?_⟩
    · unfold Resource.creationNames
      rw [hverbs, hchain]
      simp [hv, hname]
    · rw [hlength]
      simp only [List.length_cons, List.length_nil]
      omega
    · have hlevels : first.path.levels ≤ entry.path.levels := by
        rw [Sites.levels_of_mem_actions hsites hself hmem]
        exact hlevels
      rw [creationPlan_other (hverb ▸ hv) hcreator hlevels, hextended, List.length_cons,
        Nat.add_right_comm]
      rfl

/-- What the plan takes, whatever comes of it. -/
theorem exists_plan (hsites : m.sites.WellFormed) (hkey : r.key = key)
    (hr : m.get? key = some r) (hs : m.sites.get? key = some r.toSite)
    (hcreation : r.creation = m.sites.chainOf r.toSite)
    {rest : List Verb} (hverbs : t.verbs? = some (.post :: rest))
    (hrest : rest = [] ∨ ∃ v ∈ r.ownVerbs, v ≠ .post ∧ rest = [v])
    (hcreatable : m.sites.isCreatable r.toSite = true) :
    ∃ entry creators, m.targetOf key (.post :: rest) = .ok entry ∧
      r.creationNames t = (creators.reverse ++ [entry]).map Action.name ∧
      creators.length + 1 = rest.length + 1 + (r.creation.length - 1) ∧
      ∀ options, (creationPlan m.sites options entry 1).1 = options.limit 1 creators := by
  obtain ⟨entry, creators, hentry, hnames, hlength, hplan⟩ :=
    exists_aim hsites hkey hr hs hcreation hverbs hrest hcreatable
  exact ⟨entry, creators, hentry, hnames, hlength, fun options => congrArg Prod.fst (hplan options)⟩

end ResourceModel

/-! ## Sampled calls -/

namespace Sampler

section Drawing

variable {α : Type} {d : Drawing α} {m : ResourceModel} {s s' : Sampler} {a : α}

theorem run_draw : @Eq (Except Error α × Sampler) ((draw d).run s)
    ((d.run s.source : Except Error α × Random.Source).1,
      ⟨s.model, (d.run s.source : Except Error α × Random.Source).2⟩) := rfl

theorem gives_draw {source source' : Random.Source} (h : Gives d source a source') :
    Gives (draw d) ⟨m, source⟩ a ⟨m, source'⟩ := by
  unfold Gives at h ⊢
  rw [run_draw, h]

theorem of_gives_draw (h : Gives (draw d) s a s') : Gives d s.source a s'.source := by
  unfold Gives at h ⊢
  rw [run_draw] at h
  obtain ⟨hok, rfl⟩ := Prod.mk.inj h
  exact Prod.ext hok rfl

end Drawing

theorem yields_generate {m : ResourceModel} {source : Random.Source} {key name : String}
    {options : SamplingOptions} {P : Call → Prop} (h : Yields (m.build key name options) source P) :
    Yields (generate key name options) ⟨m, source⟩ P := by
  obtain ⟨call, source', hcall, hP⟩ := h
  have counted : Gives (visit key name) (⟨m, source'⟩ : Sampler) () ⟨m.visit key name, source'⟩ :=
    rfl
  unfold generate
  refine yields_bind (gives_get.2 ⟨rfl, rfl⟩) ?_
  refine yields_bind (gives_draw hcall) ?_
  exact yields_bind counted (yields_pure hP)

end Sampler

/-- **A call that creates consists of the last actions of its creation.** Take a model of any
accepted catalogue whose paths were read, in use for any time, and a template of one of its
resources whose name starts with `POST`. From any random words the template is realized; its size is
the number of actions of the whole creation, and the call has as many of the last ones as the budget
admits, or all of them where no size is checked. -/
theorem creating_call_ends_creation_chain {c : Catalogue} {built : ResourceModel}
    {key name : String} {r : Resource} {t : Template} (visits : List (String × String))
    (options : SamplingOptions) (source : Random.Source) (hread : c.IsRead)
    (hbuilt : ResourceModel.ofCatalogue c = .ok built)
    (hr : (built.visitAll visits).get? key = some r) (ht : r.templates.get? name = some t)
    (hname : "POST".toList <+: name.toList) (hcreate : options.create = true)
    (hextra : options.extraPatch = 0.0) :
    t.size = (r.creationNames t).length ∧
    Yields (Sampler.generate key name options) ⟨built.visitAll visits, source⟩ fun call =>
      (options.checkSize = true → 1 ≤ options.budget → call.actionNames =
        (r.creationNames t).drop ((r.creationNames t).length - min options.budget t.size)) ∧
      (options.checkSize = false → call.actionNames = r.creationNames t) := by
  obtain ⟨hs, hcreation, htemplates⟩ := ResourceModel.exists_site_of_visitAll visits hbuilt hr
  have hsites := ResourceModel.sites_visitAll visits hbuilt
  rw [← hsites] at hs hcreation htemplates
  have hwell : (built.visitAll visits).sites.WellFormed := by
    rw [hsites]
    exact Sites.wellFormed_ofCatalogue hread
  obtain ⟨asBuilt, hasBuilt, huncounted⟩ := htemplates name t ht
  obtain ⟨hcreatable, rest, hrest, hverbs, hsize⟩ := Templates.of_creating hasBuilt hname
  have sameVerbs : asBuilt.uncounted.verbs? = t.uncounted.verbs? := by rw [huncounted]
  have sameSize : asBuilt.uncounted.size = t.uncounted.size := by rw [huncounted]
  have hverbs : t.verbs? = some (.post :: rest) := sameVerbs.symm.trans hverbs
  have hsize : t.size = rest.length + 1 + (r.creation.length - 1) := sameSize.symm.trans hsize
  obtain ⟨entry, creators, hentry, hnames, hlength, hplan⟩ :=
    ResourceModel.exists_plan hwell (hwell.path_key hs) hr hs hcreation hverbs hrest hcreatable
  have hcount : (r.creationNames t).length = creators.length + 1 := by
    rw [hnames]
    simp
  refine ⟨by rw [hsize, hcount, hlength], ?_⟩
  have hbuild := ResourceModel.yields_build source (ResourceModel.template_eq hr ht) hverbs
    (hrest.imp_right fun ⟨v, _, hv, heq⟩ => ⟨v, hv, heq⟩) hentry hcreate hextra
  obtain ⟨call, sampler, hcall, hcallNames⟩ := Sampler.yields_generate hbuild
  rw [hplan options] at hcallNames
  refine ⟨call, sampler, hcall, fun hcheck hbudget => ?_, fun hcheck => ?_⟩
  · rw [hcallNames, SamplingOptions.limit_eq_drop hcheck hbudget, List.map_drop, ← hnames, hcount,
      hsize, hlength]
  · rw [hcallNames, hnames]
    unfold SamplingOptions.limit
    rw [hcheck]
    rfl

namespace Sample

/-- Users are created, and so are their orders, which can be read. -/
def shop : Catalogue :=
  let orders : PathTemplate := ⟨[.literal "users", .var "id", .literal "orders"]⟩
  ⟨[⟨.post, ⟨[.literal "users"]⟩, [], false, none, none⟩, ⟨.post, orders, [], false, none, none⟩,
    ⟨.get, orders, [], false, none, none⟩]⟩

theorem isRead_shop : shop.IsRead := by
  intro a ha
  simp only [shop, List.mem_cons, List.not_mem_nil, or_false] at ha
  rcases ha with rfl | rfl | rfl
  · exact ⟨"/users", rfl⟩
  · exact ⟨"/users/\x7bid\x7d/orders", rfl⟩
  · exact ⟨"/users/\x7bid\x7d/orders", rfl⟩

/-- The resource model of the shop. -/
def shopModel : ResourceModel := ((ResourceModel.ofCatalogue shop).toOption).getD .empty

/-- Creating an order and reading it. -/
def createAndRead : Template := ⟨"POST-GET", false, 3, 0⟩

end Sample

open Sample in
theorem order_created_and_read_with_budget_two :
    Yields (Sampler.generate "/users/\x7bid\x7d/orders" "POST-GET" (.ofBudget 2))
      ⟨shopModel, ⟨fun _ => 0, 0, 0⟩⟩ fun call =>
        call.actionNames = ["POST:/users/\x7bid\x7d/orders", "GET:/users/\x7bid\x7d/orders"] := by
  have hbuilt : ResourceModel.ofCatalogue shop = .ok shopModel := by
    have accepted : (ResourceModel.ofCatalogue shop).toOption = some shopModel := by
      decide +kernel
    cases hshop : ResourceModel.ofCatalogue shop with
    | error e => simp [hshop, Except.toOption] at accepted
    | ok m => simpa [hshop, Except.toOption] using accepted
  have horders : (shopModel.get? "/users/\x7bid\x7d/orders").map
      (fun r => (r.templates.get? "POST-GET", r.creationNames createAndRead)) =
        some (some createAndRead, ["POST:/users", "POST:/users/\x7bid\x7d/orders",
          "GET:/users/\x7bid\x7d/orders"]) := by decide +kernel
  obtain ⟨r, hr, heq⟩ := Option.map_eq_some_iff.1 horders
  obtain ⟨ht, hnames⟩ := Prod.mk.inj heq
  obtain ⟨-, call, sampler, hcall, hchecked, -⟩ := creating_call_ends_creation_chain []
    (.ofBudget 2) ⟨fun _ => 0, 0, 0⟩ isRead_shop hbuilt hr ht (by decide) rfl rfl
  refine ⟨call, sampler, hcall, ?_⟩
  show call.actionNames = _
  rw [hchecked rfl (by decide), hnames]
  rfl

end RestScenario
