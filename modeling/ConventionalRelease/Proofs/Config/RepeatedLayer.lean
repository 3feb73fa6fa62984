import ConventionalRelease.Config.Layers
import ConventionalRelease.Proofs.Attempt
import ConventionalRelease.Proofs.Toml.DistinctKeys
import ConventionalRelease.Proofs.Yaml.DistinctKeys
import ConventionalRelease.Proofs.Yaml.RoundTrip

/-!
# Files that are loaded twice

Whatever a file of configuration holds has distinct keys (`readConfigText_hasDistinctKeys`), so a
file that is loaded twice in a row has the effect of one layer, also on what is refused
(`Config.ofLayers_repeated`). One file is loaded twice where the file of the user is also the one
that is found for the directory.
-/

namespace ConventionalRelease

/-- Whatever a file of configuration holds has distinct keys. -/
theorem readConfigText_hasDistinctKeys {path : Path} {text : String} {d : Document}
    (h : readConfigText path text = .ok d) : d.HasDistinctKeys := by
  unfold readConfigText at h
  split at h
  · exact Toml.read?_hasDistinctKeys (elim_error_eq_ok.1 h)
  · exact Yaml.read?_hasDistinctKeys (elim_error_eq_ok.1 h)

/-- A layer is what its file holds. -/
theorem readLayer_hasDistinctKeys {tree : FileTree} {path : Path} {d : Document}
    (h : readLayer tree path = .ok d) :
    d.HasDistinctKeys := by
  obtain ⟨text, -, h⟩ := bind_eq_ok.1 h
  obtain ⟨document, hdocument, h⟩ := bind_eq_ok.1 h
  split at h
  · exact Except.ok.inj h ▸ readConfigText_hasDistinctKeys hdocument
  · exact Except.ok.inj h ▸ readConfigText_hasDistinctKeys hdocument
  · cases h

/-- A layer that comes twice in a row has the effect of one. -/
theorem Document.mergeAll_repeated {layer : Document} (h : layer.HasDistinctKeys) (base : Document)
    (lower upper : List Document) :
    base.mergeAll (lower ++ layer :: layer :: upper) = base.mergeAll (lower ++ layer :: upper) := by
  rw [mergeAll_append, mergeAll_append]
  show (((base.mergeAll lower).merge layer).merge layer).mergeAll upper =
      ((base.mergeAll lower).merge layer).mergeAll upper
  rw [h.merge_merge]

/-- What goes on from a list that is gone through does so as well if an element comes twice in a
row, if that makes no difference to what comes of the list. -/
theorem bind_mapM_repeated {ε α β γ : Type} {f : α → Except ε β} {g : List β → Except ε γ} {a : α}
    (h : ∀ b, f a = .ok b → ∀ lower upper, g (lower ++ b :: b :: upper) = g (lower ++ b :: upper))
    (before after : List α) :
    ((before ++ a :: a :: after).mapM f >>= g) = (before ++ a :: after).mapM f >>= g := by
  simp only [List.mapM_append, List.mapM_cons, bind_assoc, pure_bind]
  refine bind_congr fun lower => ?_
  cases hfirst : f a with
  | error e => rfl
  | ok b =>
    show (after.mapM f >>= fun upper => g (lower ++ b :: b :: upper)) = after.mapM f >>=
        fun upper => g (lower ++ b :: upper)
    exact bind_congr fun upper => h b hfirst lower upper

namespace Config

/-- A layer with distinct keys changes nothing when it is put on a second time, and whatever a file
of configuration holds has distinct keys. So a file that is loaded twice in a row has the effect of
one layer, as where the file of the user is also the one that is found for the directory. -/
theorem ofLayers_repeated :
    (∀ base layer : Document, layer.HasDistinctKeys →
      (base.merge layer).merge layer = base.merge layer) ∧
      (∀ path text d, readConfigText path text = .ok d → d.HasDistinctKeys) ∧
      (∀ tree before path after,
        ofLayers tree (before ++ path :: path :: after) = ofLayers tree (before ++ path :: after)) ∧
      ∀ tree dirs directory path, userConfig? tree dirs = some path →
        findConfig? tree directory = some path →
        effectiveConfig tree dirs directory = (·, [path, path]) <$> ofLayers tree [path] := by
  have hrepeated (tree : FileTree) (before : List Path) (path : Path) (after : List Path) :
      ofLayers tree (before ++ path :: path :: after) =
        ofLayers tree (before ++ path :: after) := by
    refine bind_mapM_repeated (fun layer hlayer lower upper => ?_) before after
    rw [Document.mergeAll_repeated (readLayer_hasDistinctKeys hlayer)]
  refine ⟨fun base _ h => h.merge_merge base, fun _ _ _ h => readConfigText_hasDistinctKeys h,
    hrepeated, ?_⟩
  intro tree dirs directory path huser hfound
  have hlayers : configLayers tree dirs directory = [path, path] := by
    rw [configLayers, huser, hfound]
    rfl
  have honce : ofLayers tree [path, path] = ofLayers tree [path] := hrepeated tree [] path []
  rw [effectiveConfig, hlayers, honce]
  cases ofLayers tree [path] <;> rfl

/-- A layer with values missing at several depths is put on twice over a document, and a file is
both the one of the user and the one for a directory below. -/
theorem ofLayers_repeated_homeDirectory :
    let base :
    Document := .mapping [("version", .text "1.1"), ("tag", .mapping [("filter", .text "v*")])]
    let layer : Document :=
  .mapping [("tag", .mapping [("filter", .null), ("more", .mapping [("deep", .null)])]),
      ("new", .mapping [("deep", .null)]), ("version", .null)]
    let path : Path := ["home", ".relnote", "config.yml"]
    let tree : FileTree := fun p => if p = path then some (.file (Yaml.write base)) else none
    let dirs : UserDirectories := { own := some ["home", ".relnote"] }
    layer.HasDistinctKeys ∧
      base.merge layer = .mapping [("version", .text "1.1"),
        ("tag", .mapping [("filter", .text "v*"), ("more", .mapping [("deep", .null)])]),
        ("new", .mapping [("deep", .null)])] ∧
      (base.merge layer).merge layer = base.merge layer ∧
      readConfigText path (Yaml.write base) = .ok base ∧ base.HasDistinctKeys ∧
      userConfig? tree dirs = some path ∧ findConfig? tree ["home", "work"] = some path ∧
      effectiveConfig tree dirs ["home", "work"] = (·, [path, path]) <$> ofLayers tree [path] := by
  intro base layer path tree dirs
  have hlayer : layer.HasDistinctKeys := by
    refine .mapping (by decide)
      (List.forall_mem_cons.2 ⟨.mapping (by decide) ?_, List.forall_mem_cons.2 ⟨?_, ?_⟩⟩)
    · exact List.forall_mem_cons.2 ⟨.null, List.forall_mem_singleton.2 (.singleton .null)⟩
    · exact .singleton .null
    · exact List.forall_mem_singleton.2 .null
  have hbase : base.IsTextual :=
    .mapping (by decide) (List.forall_mem_cons.2 ⟨.text _,
      List.forall_mem_singleton.2 (.mapping (by decide) (List.forall_mem_singleton.2 (.text _)))⟩)
  have htext : readConfigText path (Yaml.write base) = .ok base := by
    rw [readConfigText, if_neg (by decide), Yaml.read?_write hbase]
    rfl
  have huser : userConfig? tree dirs = some path := rfl
  have hfound : findConfig? tree ["home", "work"] = some path := rfl
  obtain ⟨htwice, hdistinct, -, hboth⟩ := ofLayers_repeated
  exact ⟨hlayer, rfl, htwice base layer hlayer, htext, hdistinct path _ _ htext, huser, hfound,
    hboth tree dirs ["home", "work"] path huser hfound⟩

end Config

end ConventionalRelease
