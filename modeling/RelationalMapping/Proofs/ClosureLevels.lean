import RelationalMapping.Proofs.Inheritance

/-!
The attributes that an entity has by inheritance, level by level. The closure is computed from one
walk up to the root and its length from another one, and both come to a recursion over the parent
links: what the parent has, and then what is declared on the entity itself. Nothing is left out,
also where a name is declared on several levels.
-/

namespace RelationalMapping.Model

variable {m : Model} {x p : EntityId} {e : EntityMapping} {up : List EntityMapping}
  {t : Offspring} {log : List (Command × AttributeId)}

/-- The lineage of an entity is its parent and the lineage of the parent. -/
theorem Around.exists_parent (r : Around m x e up t) (fo : Forest m) (hp : e.parent = some p) :
    ∃ pe rest below, up = pe :: rest ∧ m.entity? p = some pe ∧ Around m p pe rest below := by
  have hl : Lineage m (some p) up := hp ▸ r.lineage
  cases hl with
  | @step _ pe rest hpe hrest =>
    obtain ⟨rest', below, hparent⟩ := fo.exists_around hpe
    have hsame : rest' = rest := hparent.lineage.unique hrest
    exact ⟨pe, rest, below, rfl, hpe, hsame ▸ hparent⟩

/-- What is declared on the entity and on those above it, from the root on. -/
def byLevel (log : List (Command × AttributeId)) (e : EntityMapping) (up : List EntityMapping) :
    List AttributeMapping :=
  (up.reverse ++ [e]).flatMap (lastDeclared log)

theorem byLevel_root : byLevel log e [] = lastDeclared log e := by
  rw [byLevel, List.reverse_nil, List.nil_append, List.flatMap_singleton]

theorem byLevel_child {pe : EntityMapping} {rest : List EntityMapping} :
    byLevel log e (pe :: rest) = byLevel log pe rest ++ lastDeclared log e := by
  rw [byLevel, List.reverse_cons, List.flatMap_append, List.flatMap_singleton, byLevel]

/-- Each level comes as a whole. -/
theorem mem_byLevel {f : EntityMapping} (hf : f = e ∨ f ∈ up) {a : AttributeMapping}
    (ha : a ∈ lastDeclared log f) : a ∈ byLevel log e up := by
  refine List.mem_flatMap.mpr ⟨f, ?_, ha⟩
  rcases hf with rfl | hf
  · exact List.mem_append_right _ (List.mem_singleton_self f)
  · exact List.mem_append_left _ (List.mem_reverse.mpr hf)

theorem around_eq_append (e : EntityMapping) (up : List EntityMapping) (t : Offspring) :
    around e up t = up.reverse ++ [e] ++ t.topDown :=
  List.append_cons ..

namespace Around

variable (r : Around m x e up t) (fo : Forest m) (he : m.entity? x = some e)
  (hd : ∀ f ∈ around e up t, Declares log f)
include r fo he hd

theorem nodup_byLevel : ((byLevel log e up).map AttributeMapping.id).Nodup := by
  have hall := r.nodup_ids fo he hd
  rw [around_eq_append, List.flatMap_append, List.map_append] at hall
  exact hall.of_append_left

theorem attributeClosureSpan_eq_length :
    m.attributeClosureSpan x = .ok (byLevel log e up).length := by
  have hlength : (byLevel log e up).length = e.span + (up.map EntityMapping.span).sum := by
    have hlevels : ∀ f ∈ up.reverse ++ [e], Declares log f := fun f hf =>
      hd f (around_eq_append e up t ▸ List.mem_append_left _ hf)
    rw [byLevel, length_lastDeclared hlevels, List.map_append,
      List.map_reverse, List.sum_append, List.sum_reverse, List.map_singleton, List.sum_singleton,
      Nat.add_comm]
  rw [hlength]
  exact r.attributeClosureSpan_eq fo he

end Around

/-- After every run the attributes that an entity has by inheritance are those declared on it if it
is a root, and otherwise those that its parent has by inheritance, followed by those declared on the
entity. There are as many as are counted, and each is there once: all that is declared on any level,
also under a name that other levels have too. -/
theorem closure_by_levels (collisions : NameCollision) (verifying : Bool)
    (commands : List Command) (x : EntityId) (e : EntityMapping)
    (he : ((fresh collisions verifying).after commands).entity? x = some e) :
    let m := (fresh collisions verifying).after commands
    ∃ own as, e.attributes = .ok own ∧ m.attributeClosure x = .ok as ∧
      m.attributeClosureSpan x = .ok as.length ∧
      (e.parent = none → as = own) ∧
      (∀ p, e.parent = some p →
        ∃ inherited, m.attributeClosure p = .ok inherited ∧ as = inherited ++ own) ∧
      (as.map AttributeMapping.id).Nodup ∧
      ∀ f, f = e ∨ Above m e.parent f → ∀ n a, f.locate .entity n = .ok (some a) → a ∈ as := by
  intro m
  have fo : Forest m := forest_after (forest_fresh collisions verifying) commands
  have hr := recorded_after collisions verifying commands
  obtain ⟨up, t, r, hd⟩ := hr.exists_around fo he
  have hown : Declares _ e := hd e (List.mem_append_right _ (List.mem_cons_self ..))
  refine ⟨_, _, hown.listing_eq, r.attributeClosure_eq fo he hd,
    r.attributeClosureSpan_eq_length fo he hd, fun hroot => ?_, fun p hp => ?_,
    r.nodup_byLevel fo he hd, fun f hf n a ha => ?_⟩
  · have hl := r.lineage
    rw [hroot] at hl
    cases hl
    exact byLevel_root
  · obtain ⟨pe, rest, below, rfl, hpe, hparent⟩ := r.exists_parent fo hp
    obtain ⟨rest', below', hparent', hdp⟩ := hr.exists_around fo hpe
    have hsame : rest' = rest := hparent'.lineage.unique hparent.lineage
    subst hsame
    exact ⟨_, hparent'.attributeClosure_eq fo hpe hdp, byLevel_child⟩
  · have hlevel : f = e ∨ f ∈ up := hf.imp_right r.lineage.mem_iff.mpr
    have haround : f ∈ around e up t := by
      rw [around_eq_append]
      refine List.mem_append_left _ ?_
      rcases hlevel with rfl | hup
      · exact List.mem_append_right _ (List.mem_singleton_self f)
      · exact List.mem_append_left _ (List.mem_reverse.mpr hup)
    exact mem_byLevel hlevel ((hd f haround).mem_listing_of_locate ha)

/-- The name `key` is declared on the root, where it was taken over once, and on its child. -/
theorem closure_by_levels_branchingRun :
    let m := (fresh .replace true).after branchingRun
    ∃ e own inherited, m.entity? ⟨1⟩ = some e ∧ e.attributes = .ok own ∧
      m.attributeClosure ⟨0⟩ = .ok inherited ∧ m.attributeClosure ⟨1⟩ = .ok (inherited ++ own) ∧
      m.attributeClosureSpan ⟨1⟩ = .ok (inherited ++ own).length ∧
      (inherited ++ own).map (fun a => (a.name, a.id)) =
        [("key", ⟨⟨0⟩, 1⟩), ("key", ⟨⟨1⟩, 0⟩)] := by
  intro m
  obtain ⟨own, as, hown, has, hspan, _, hparent, _⟩ :=
    closure_by_levels .replace true branchingRun ⟨1⟩ _ rfl
  obtain ⟨inherited, hinherited, rfl⟩ := hparent ⟨0⟩ rfl
  refine ⟨_, own, inherited, rfl, hown, hinherited, has, hspan, ?_⟩
  cases hown
  cases hinherited
  rfl

end RelationalMapping.Model
