import CTree.Proofs.Documents.Fields

/-!
# Documents of trees

A tree can be read off its document: the discriminator tells the form of a node, the names tell its
fields, and what stands in them is smaller. A declaration among statements has a discriminator that
no other statement has.
-/

namespace CTree

open Content

/-! ### Documents of fields -/

theorem eq_of_map_eq {α β : Type} {f : α → β} {as bs : List α}
    (hf : ∀ a ∈ as, ∀ b ∈ bs, f a = f b → a = b) (h : as.map f = bs.map f) : as = bs := by
  induction as generalizing bs with
  | nil => exact (List.map_eq_nil_iff.1 h.symm).symm
  | cons a as ih =>
    cases bs with
    | nil => cases h
    | cons b bs =>
      obtain ⟨hhead, htail⟩ := List.cons.inj h
      obtain rfl := hf a List.mem_cons_self b List.mem_cons_self hhead
      rw [ih (fun a ha b hb => hf a (List.mem_cons_of_mem _ ha) b (List.mem_cons_of_mem _ hb)) htail]

theorem map_attach_eq {α β : Type} {as : List α} {f : { a // a ∈ as } → β} {g : α → β}
    (h : ∀ a ha, f ⟨a, ha⟩ = g a) : as.attach.map f = as.map g := by
  have hf : f = g ∘ Subtype.val := funext fun a => h a.1 a.2
  rw [hf, ← List.map_map, List.attach_map_subtype_val]

namespace Content

/-- The document of what is in a field. -/
def document (c : Content) : Json :=
  c.toJson fun m _ => m.toJson

/-- The document of one dimension. -/
def dimension : Option Node → Json
  | none => .null
  | some n => n.toJson

theorem document_nodes {ns : List Node} : (nodes ns).document = .arr (ns.map Node.toJson) := by
  simp [document, toJson]

theorem document_sizes {ns : List (Option Node)} :
    (sizes ns).document = .arr (ns.map dimension) := by
  refine congrArg Json.arr (map_attach_eq fun m hm => ?_)
  cases m <;> rfl

end Content

namespace Node

variable {n m : Node}

theorem toJson_decl {d : Decl} : (stmt (.decl d)).toJson = (decl d).toJson := by
  rw [toJson]

/-- The document of a node is an object: the discriminator, and the fields by their names. -/
theorem toJson_eq (h : n.isLifted = false) :
    n.toJson = .obj (n.tagField ++ n.fields.map fun f => (f.1, f.2.document)) := by
  rw [toJson]
  · exact congrArg (fun fs => Json.obj (n.tagField ++ fs)) (map_attach_eq fun _ _ => rfl)
  · rintro d rfl
    cases h

theorem exists_of_isLifted (h : n.isLifted = true) : ∃ d, n = .stmt (.decl d) := by
  unfold isLifted at h
  split at h
  · exact ⟨_, rfl⟩
  · cases h

theorem exists_of_family_stmt {s : Stmt} (h : n.family = (stmt s).family) : ∃ s, n = .stmt s := by
  cases n <;> cases h
  exact ⟨_, rfl⟩

theorem exists_toJson (n : Node) : ∃ fs, n.toJson = .obj fs := by
  cases hn : n.isLifted with
  | false => exact ⟨_, toJson_eq hn⟩
  | true =>
    obtain ⟨d, rfl⟩ := exists_of_isLifted hn
    rw [toJson_decl]
    exact ⟨_, toJson_eq rfl⟩

end Node

namespace Content

/-- Contents of one form with one document are the same, if that is so for the nodes in them. -/
theorem Alike.eq_of_document {c c' : Content} (halike : c.Alike c')
    (hnodes : ∀ n ∈ c.toNodes, ∀ m, n.family = m.family → n.toJson = m.toJson → n = m)
    (h : c.document = c'.document) : c = c' := by
  cases halike with
  | atom => exact congrArg Content.atom h
  | @node n m hfamily => rw [hnodes n List.mem_cons_self m hfamily h]
  | @size n m hfamily => rw [hnodes n List.mem_cons_self m hfamily h]
  | @nodes ns ms hfamily =>
    rw [document_nodes, document_nodes] at h
    have hns : ns = ms :=
      eq_of_map_eq (fun n hn m hm => hnodes n hn m (hfamily n hn m hm)) (Json.arr.inj h)
    rw [hns]
  | @sizes ns ms hfamily =>
    rw [document_sizes, document_sizes] at h
    refine congrArg Content.sizes (eq_of_map_eq (fun n hn m hm heq => ?_) (Json.arr.inj h))
    cases n with
    | none =>
      cases m with
      | none => rfl
      | some m =>
        obtain ⟨fs, hfs⟩ := m.exists_toJson
        rw [dimension, dimension, hfs] at heq
        cases heq
    | some n =>
      cases m with
      | none =>
        obtain ⟨fs, hfs⟩ := n.exists_toJson
        rw [dimension, dimension, hfs] at heq
        cases heq
      | some m =>
        have hmem : n ∈ (Content.sizes ns).toNodes := List.mem_filterMap.2 ⟨some n, hn, rfl⟩
        rw [hnodes n hmem m (hfamily n hn m hm) heq]

theorem AlikeFields.eq_of_document {fs gs : List (String × Content)} (halike : AlikeFields fs gs)
    (hnodes : Every (fun n => ∀ m, n.family = m.family → n.toJson = m.toJson → n = m) fs)
    (h : fs.map (fun f => (f.1, f.2.document)) = gs.map fun f => (f.1, f.2.document)) :
    fs = gs := by
  refine eq_of_map_eq (fun f hf g hg heq => ?_) h
  obtain ⟨hname, hdocument⟩ := Prod.mk.inj heq
  exact Prod.ext hname ((halike f hf g hg hname).eq_of_document (hnodes f hf) hdocument)

end Content

namespace Node

variable {n m : Node}

/-- The discriminators of nodes of one family stand in one place. -/
theorem tag?_eq_of_tagField (hfamily : n.family = m.family) {fs gs : List (String × Json)}
    (h : n.tagField ++ fs = m.tagField ++ gs) : n.tag? = m.tag? ∧ fs = gs := by
  have hsome : n.tag?.isSome = m.tag?.isSome := by
    cases n <;> cases m <;> cases hfamily <;> rfl
  unfold tagField at h
  cases hn : n.tag? with
  | none =>
    cases hm : m.tag? with
    | none =>
      rw [hn, hm] at h
      exact ⟨rfl, h⟩
    | some t =>
      rw [hn, hm] at hsome
      cases hsome
  | some t =>
    cases hm : m.tag? with
    | none =>
      rw [hn, hm] at hsome
      cases hsome
    | some t' =>
      rw [hn, hm] at h
      obtain ⟨hhead, hrest⟩ := List.cons.inj h
      rw [Json.str.inj (Prod.mk.inj hhead).2]
      exact ⟨rfl, hrest⟩

/-- The document of a declaration among statements is that of no other statement. -/
theorem toJson_ne_of_isLifted {s : Stmt} (hs : (stmt s).isLifted = false) (d : Decl) :
    (decl d).toJson ≠ (stmt s).toJson := by
  intro h
  rw [toJson_eq rfl, toJson_eq hs] at h
  obtain ⟨hhead, -⟩ := List.cons.inj (Json.obj.inj h)
  exact tag_ne_of_isLifted hs d (Json.str.inj (Prod.mk.inj hhead).2).symm

/-- A node can be read off its document, among the nodes of its family. -/
theorem toJson_injective (n m : Node) (hfamily : n.family = m.family)
    (h : n.toJson = m.toJson) : n = m := by
  induction hsize : sizeOf n using Nat.strongRecOn generalizing n m with
  | ind size ih =>
    subst hsize
    cases hn : n.isLifted with
    | false =>
      cases hm : m.isLifted with
      | false =>
        rw [toJson_eq hn, toJson_eq hm] at h
        obtain ⟨htag, hdocuments⟩ := tag?_eq_of_tagField hfamily (Json.obj.inj h)
        have halike := alikeFields hfamily hn hm htag
        refine eq_of_fields hfamily hn hm htag (halike.eq_of_document ?_ hdocuments)
        exact fun f hf l hl m hfamily h => ih _ (sizeOf_lt_of_mem_fields hf hl) l m hfamily h rfl
      | true =>
        obtain ⟨d, rfl⟩ := exists_of_isLifted hm
        obtain ⟨s, rfl⟩ := exists_of_family_stmt hfamily
        rw [toJson_decl] at h
        exact (toJson_ne_of_isLifted hn d h.symm).elim
    | true =>
      obtain ⟨d, rfl⟩ := exists_of_isLifted hn
      obtain ⟨s, rfl⟩ := exists_of_family_stmt hfamily.symm
      rw [toJson_decl] at h
      cases hm : (stmt s).isLifted with
      | false => exact (toJson_ne_of_isLifted hm d h).elim
      | true =>
        obtain ⟨d', hd'⟩ := exists_of_isLifted hm
        obtain rfl := Node.stmt.inj hd'
        rw [toJson_decl] at h
        have hd : decl d = decl d' := ih _ (by simp) (decl d) (decl d') rfl h rfl
        rw [Node.decl.inj hd]

end Node

end CTree
