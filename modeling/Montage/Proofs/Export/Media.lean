import Montage.Export.Job
import Montage.Proofs.Asset.Results
import Montage.Proofs.Graph.Assembly

/-!
# The media of an export

`SuppliedFrom` says that a program has an input for every clip that has bytes, and that the input is
given just these. With the bytes of the last clip of each id this holds of every export; with the
bytes of the clip's own source it holds exactly when clips that share an id have the same bytes
(`prepareExport_supplied`).
-/

namespace Montage

open Montage.Graph Montage.Outcome

/-- An input with the one entry under its name holding the bytes of its clip. -/
def IsFilled (bytes : Clip → Option ByteArray) (payloads : Payloads) (numbered : Layer × Nat)
    (input : InputSpec Binary64) : Prop :=
  IsInput numbered input ∧ ∃ data, bytes numbered.1.clip = some data ∧
    payloads.filter (·.1 = input.name) = [(input.name, data)]

/-- The inputs of a program are those of the clips that have a source and bytes, filled with these. -/
def SuppliedFrom (bytes : Clip → Option ByteArray) (t : Timeline) (s : Supplied) : Prop :=
  List.Forall₂ (IsFilled bytes s.payloads)
    ((layers t).filter fun layer =>
      layer.clip.source.isSome && (bytes layer.clip).isSome).zipIdx s.program.inputs

/-- Every input is given what fetching its own source gives, and a clip has an input just when it
has a source that can be fetched. -/
structure OwnMedia (shelf : Shelf) (t : Timeline) (s : Supplied) : Prop where
  payload : ∀ input ∈ s.program.inputs, ∃ data, (shelf.fetch? input.source).outcome = .ok data ∧
    s.payloads.filter (·.1 = input.name) = [(input.name, data)]
  kept : List.Forall₂ IsInput
    ((layers t).filter fun layer =>
      layer.clip.source.isSome && (shelf.bytes? layer.clip.source).isSome).zipIdx s.program.inputs

/-- Clips with a source have the bytes that are found under their ids. -/
def IdsAgree (shelf : Shelf) (clips : List Clip) : Prop :=
  ∀ clip ∈ clips, clip.source.isSome → shelf.bytesNamed? clips clip.id = shelf.bytes? clip.source

variable {t : Timeline} {supplied : Supplied} {f g : Clip → Option ByteArray} {shelf : Shelf}

theorem ownMedia_iff :
    OwnMedia shelf t supplied ↔ SuppliedFrom (fun clip => shelf.bytes? clip.source) t supplied := by
  constructor
  · intro h
    refine forall₂_imp_of_mem h.kept fun numbered _ input hinput hspec => ?_
    obtain ⟨data, hdata, hentry⟩ := h.payload input hinput
    exact ⟨hspec, data, Shelf.bytes?_eq_some.2 (hspec.source_eq ▸ hdata), hentry⟩
  · intro h
    refine ⟨fun input hinput => ?_, h.imp fun _ _ => And.left⟩
    obtain ⟨numbered, -, hspec, data, hdata, hentry⟩ := exists_left_of_forall₂ h hinput
    exact ⟨data, hspec.source_eq ▸ Shelf.bytes?_eq_some.1 hdata, hentry⟩

theorem SuppliedFrom.congr (h : SuppliedFrom f t supplied)
    (heq : ∀ clip ∈ requiredClips t, clip.source.isSome → f clip = g clip) :
    SuppliedFrom g t supplied := by
  have hclip : ∀ layer ∈ layers t, layer.clip.source.isSome → f layer.clip = g layer.clip :=
    fun layer hlayer => heq layer.clip (List.mem_map_of_mem hlayer)
  have hkept : ((layers t).filter fun layer =>
      layer.clip.source.isSome && (f layer.clip).isSome) = (layers t).filter fun layer =>
      layer.clip.source.isSome && (g layer.clip).isSome := by
    refine List.filter_congr fun layer hlayer => ?_
    cases hsource : layer.clip.source.isSome with
    | false => rfl
    | true => rw [hclip layer hlayer hsource]
  rw [SuppliedFrom, ← hkept]
  refine forall₂_imp_of_mem h fun numbered hmem input _ => ?_
  rintro ⟨hspec, data, hdata, hentry⟩
  have hnumbered := List.mem_filter.1 (List.fst_mem_of_mem_zipIdx hmem)
  have hsource : numbered.1.clip.source.isSome := (Bool.and_eq_true_iff.1 hnumbered.2).1
  exact ⟨hspec, data, hclip _ hnumbered.1 hsource ▸ hdata, hentry⟩

theorem SuppliedFrom.some_eq (hf : SuppliedFrom f t supplied) (hg : SuppliedFrom g t supplied)
    (hkey : ∀ a b : Clip, a.id = b.id → a.source = b.source → g a = g b) {clip : Clip}
    (hclip : clip ∈ requiredClips t) (hsource : clip.source.isSome) {data : ByteArray}
    (hdata : f clip = some data) : g clip = some data := by
  obtain ⟨layer, hlayer, rfl⟩ := List.mem_map.1 hclip
  have hkept : layer ∈ (layers t).filter fun layer =>
      layer.clip.source.isSome && (f layer.clip).isSome :=
    List.mem_filter.2 ⟨hlayer, by simp [hsource, hdata]⟩
  obtain ⟨i, hi, hget⟩ := List.mem_iff_getElem.1 hkept
  obtain ⟨input, hinput, hfilled⟩ := getElem?_of_forall₂_zipIdx hf
    (List.mk_mem_zipIdx_iff_getElem?.2 (List.getElem?_eq_some_iff.2 ⟨hi, hget⟩))
  obtain ⟨hlayerInput, data₁, hdata₁, hentry₁⟩ := hfilled
  obtain ⟨numbered, -, hotherInput, data₂, hdata₂, hentry₂⟩ :=
    exists_left_of_forall₂ hg (List.mem_of_getElem? hinput)
  have hid : numbered.1.clip.id = layer.clip.id :=
    Option.some.inj (hotherInput.clip_eq.symm.trans hlayerInput.clip_eq)
  have hsame : numbered.1.clip.source = layer.clip.source :=
    hotherInput.source_eq.symm.trans hlayerInput.source_eq
  have hentry : [(input.name, data₁)] = [(input.name, data₂)] := hentry₁.symm.trans hentry₂
  obtain rfl : data = data₁ := Option.some.inj (hdata.symm.trans hdata₁)
  obtain rfl : data = data₂ := by simpa using hentry
  rw [← hkey _ _ hid hsame, hdata₂]

/-- Two ways of filling the same inputs agree on the clips that have a source. -/
theorem SuppliedFrom.eq (hf : SuppliedFrom f t supplied) (hg : SuppliedFrom g t supplied)
    (hfkey : ∀ a b : Clip, a.id = b.id → a.source = b.source → f a = f b)
    (hgkey : ∀ a b : Clip, a.id = b.id → a.source = b.source → g a = g b) {clip : Clip}
    (hclip : clip ∈ requiredClips t) (hsource : clip.source.isSome) : f clip = g clip := by
  cases hfclip : f clip with
  | some data => exact (hf.some_eq hg hgkey hclip hsource hfclip).symm
  | none =>
    cases hgclip : g clip with
    | some data => exact hfclip.symm.trans (hg.some_eq hf hfkey hclip hsource hgclip)
    | none => rfl

/-! ### What an export supplies -/

/-- The number in the name of an input. -/
def readInputName (name : String) : Nat :=
  Label.readNumber ((name.toList.drop 5).takeWhile Char.isDigit)

theorem toList_name (q : Placed) :
    q.input.name.toList =
      'i' :: 'n' :: 'p' :: 'u' :: 't' ::
        (Nat.toDigits 10 q.index ++ '.' :: q.source.extension.toList) := by
  have hname : q.input.name =
      toString "input" ++ toString q.index ++ "." ++ q.source.extension := rfl
  rw [hname, String.toList_append, String.toList_append, Label.toList_numbered]
  simp

theorem readInputName_name (q : Placed) : readInputName q.input.name = q.index := by
  have hpoint : '.'.isDigit = false := rfl
  rw [readInputName, toList_name]
  simp [Label.span_toDigits q.index hpoint, Label.readNumber_toDigits]

theorem fontFile_ne_name (font : String) (q : Placed) : fontFile font ≠ q.input.name := by
  intro heq
  have hlist : (fontFile font).toList = _ := heq ▸ toList_name q
  have hfont : (toString "font").toList = ['f', 'o', 'n', 't'] := rfl
  simp only [fontFile, String.toList_append, hfont] at hlist
  cases hlist

theorem filter_filterMap_of_nodup {α β : Type} {name : α → String} {get : α → Option β}
    {as : List α} (hnodup : (as.map name).Nodup) {a : α} (ha : a ∈ as) {b : β}
    (hb : get a = some b) :
    (as.filterMap fun a => (get a).map (name a, ·)).filter (·.1 = name a) = [(name a, b)] := by
  induction as with
  | nil => cases ha
  | cons first rest ih =>
    obtain ⟨hfresh, hrest⟩ := List.nodup_cons.1 hnodup
    rcases List.mem_cons.1 ha with rfl | ha
    · have hother : (rest.filterMap fun a => (get a).map (name a, ·)).filter (·.1 = name a) = [] := by
        refine List.filter_eq_nil_iff.2 fun entry hentry heq => hfresh ?_
        obtain ⟨a', ha', hget⟩ := List.mem_filterMap.1 hentry
        obtain ⟨b', -, rfl⟩ := Option.map_eq_some_iff.1 hget
        exact of_decide_eq_true heq ▸ List.mem_map_of_mem ha'
      simp [hb, hother]
    · have hne : name first ≠ name a := fun heq => hfresh (heq ▸ List.mem_map_of_mem ha)
      cases hget : get first <;> simp [hget, hne, ih hrest ha]

theorem supplyFonts_ends {σ : Type} {resolver : Resolver} {fonts : List String}
    {given supplied : Supplied} {s s' : Studio σ}
    (h : (supplyFonts resolver fonts given).Ends s supplied s') :
    supplied.program.inputs = given.program.inputs ∧
      ∃ more, supplied.payloads = given.payloads ++ more ∧
        ∀ entry ∈ more, ∃ font, entry.1 = fontFile font := by
  induction fonts generalizing given s with
  | nil =>
    obtain ⟨rfl, -⟩ := Session.ends_pure.1 h
    exact ⟨rfl, [], by simp, by simp⟩
  | cons font rest ih =>
    rw [supplyFonts] at h
    obtain ⟨found, s₁, -, h⟩ := Session.ends_bind.1 h
    split at h
    · obtain ⟨hinputs, hpayloads⟩ := ih h
      exact ⟨hinputs, hpayloads⟩
    · rename_i data
      obtain ⟨hinputs, more, hpayloads, hfonts⟩ := ih h
      refine ⟨hinputs, (fontFile font, data) :: more, by simp [hpayloads], ?_⟩
      exact List.forall_mem_cons.2 ⟨⟨font, rfl⟩, hfonts⟩

theorem inputPayloads_eq (p : Program Binary64) (assets : Assets) :
    inputPayloads p assets = p.inputs.filterMap fun i =>
      ((i.clipId.bind assets.get?).bind (·.data)).map (i.name, ·) := by
  refine List.filterMap_congr fun i _ => ?_
  cases hid : i.clipId with
  | none => rfl
  | some id => cases hresult : assets.get? id with
    | none => simp [hresult]
    | some result => cases hdata : result.data <;> simp [hresult, hdata]

section Prepared

variable {σ : Type} {compiler : Compiler} {quality : Value} {resolver : Resolver}
  {s s' : Studio σ} {assets : Assets} {p : Program Binary64}

theorem nodup_names (h : Compiled compiler t quality (some assets) p) :
    (p.inputs.map (·.name)).Nodup := by
  have hread : (p.inputs.map (·.name)).map readInputName =
      (placed (some assets) (layers t)).map (·.index) := by
    rw [h.inputs_eq, List.map_map, List.map_map]
    exact List.map_congr_left fun q _ => readInputName_name q
  exact List.Nodup.of_map readInputName (hread ▸ nodup_index_placed)

/-- The payloads of a compiled program, before the fonts. -/
theorem filter_inputPayloads (h : Compiled compiler t quality (some assets) p)
    {input : InputSpec Binary64} (hinput : input ∈ p.inputs) {clip : Clip}
    (hclip : input.clipId = some clip.id) {result : AssetResult}
    (hresult : assets.get? clip.id = some result) {data : ByteArray}
    (hdata : result.data = some data) {more : Payloads}
    (hfonts : ∀ entry ∈ more, ∃ font, entry.1 = fontFile font) :
    (inputPayloads p assets ++ more).filter (·.1 = input.name) = [(input.name, data)] := by
  have hmore : more.filter (·.1 = input.name) = [] := by
    refine List.filter_eq_nil_iff.2 fun entry hentry heq => ?_
    obtain ⟨font, hfont⟩ := hfonts entry hentry
    rw [h.inputs_eq] at hinput
    obtain ⟨q, -, rfl⟩ := List.mem_map.1 hinput
    exact fontFile_ne_name font q (hfont.symm.trans (of_decide_eq_true heq))
  rw [List.filter_append, hmore, List.append_nil, inputPayloads_eq]
  exact filter_filterMap_of_nodup (nodup_names h) hinput (by simp [hclip, hresult, hdata])

/-- An export supplies each clip with the bytes that are found under its id. -/
theorem prepareExport_bytesNamed {supplied : Supplied}
    (h : (prepareExport compiler t quality resolver).Ends s supplied s') :
    SuppliedFrom (fun clip => (resolver.shelfIn s).bytesNamed? (requiredClips t) clip.id) t
      supplied := by
  obtain ⟨assets, s₁, hassets, h⟩ := Session.ends_bind.1 h
  obtain ⟨p, s₂, hcompile, h⟩ := Session.ends_bind.1 h
  obtain ⟨-, s₃, -, h⟩ := Session.ends_bind.1 h
  have hcompiled := Compiled.of_compile (Session.ends_lift.1 hcompile).1
  have hresults := Resolver.ends_resolveAll hassets
  obtain ⟨hinputs, more, hpayloads, hfonts⟩ := supplyFonts_ends h
  have hkept : keptLayers t (some assets) = (layers t).filter fun layer =>
      layer.clip.source.isSome &&
        ((resolver.shelfIn s).bytesNamed? (requiredClips t) layer.clip.id).isSome := by
    rw [keptLayers_eq_filter]
    refine List.filter_congr fun layer hlayer => ?_
    obtain ⟨result, hget, -, hok⟩ := Shelf.get?_of_results hresults (List.mem_map_of_mem hlayer)
    simp [Clip.isAvailable, hget, hok]
  rw [SuppliedFrom, hinputs, hpayloads, ← hkept]
  refine forall₂_imp_of_mem hcompiled.inputs_kept fun numbered hmem input hinput hspec => ?_
  have hlayer := List.fst_mem_of_mem_zipIdx hmem
  rw [hkept] at hlayer
  obtain ⟨hlayer, havailable⟩ := List.mem_filter.1 hlayer
  obtain ⟨result, hget, hdata, -⟩ := Shelf.get?_of_results hresults (List.mem_map_of_mem hlayer)
  obtain ⟨data, hbytes⟩ := Option.isSome_iff_exists.1 (Bool.and_eq_true_iff.1 havailable).2
  exact ⟨hspec, data, hbytes, filter_inputPayloads hcompiled hinput hspec.clip_eq hget
    (hdata.trans hbytes) hfonts⟩

theorem ownMedia_iff_idsAgree {supplied : Supplied}
    (h : (prepareExport compiler t quality resolver).Ends s supplied s') :
    OwnMedia (resolver.shelfIn s) t supplied ↔ IdsAgree (resolver.shelfIn s) (requiredClips t) := by
  have hnamed := prepareExport_bytesNamed h
  rw [ownMedia_iff]
  constructor
  · intro hown clip hclip hsource
    exact hnamed.eq hown (fun a b hid _ => by simp only [hid]) (fun a b _ hsame => by simp only [hsame])
      hclip hsource
  · exact fun hagree => hnamed.congr hagree

/-- Every export supplies the clips with the bytes under their ids. Each has those of its own source
exactly when the clips that share an id do. -/
theorem prepareExport_supplied {supplied : Supplied}
    (h : (prepareExport compiler t quality resolver).Ends s supplied s') :
    SuppliedFrom (fun clip => (resolver.shelfIn s).bytesNamed? (requiredClips t) clip.id) t
      supplied ∧
    (OwnMedia (resolver.shelfIn s) t supplied ↔
      IdsAgree (resolver.shelfIn s) (requiredClips t)) :=
  ⟨prepareExport_bytesNamed h, ownMedia_iff_idsAgree h⟩

end Prepared

/-! ### Two tracks of one name

The clips of these tracks have no names of their own, and get the same one. -/

def twinTrack (path : String) : Value :=
  .record [("id", "main"), ("type", "video"),
    ("clips", .list [.record [("storage_path", path), ("duration", .int 2)]])]

def twinSnapshot : Value := .record [("tracks", .list [twinTrack "a.mp4", twinTrack "b.mp4"])]

def twinStudio (a b : String) : Studio Unit where
  tree := ⟨[(["media"], .directory), (["media", "a.mp4"], .file a.toUTF8),
    (["media", "b.mp4"], .file b.toUTF8)]⟩
  front := ()

def twinResolver : Resolver := { storage := some ⟨"/media"⟩ }

theorem twinSnapshot_ownMedia_of_same :
    ∃ t, Timeline.ofValue twinSnapshot = .ok t ∧ ∃ supplied s',
      (prepareExport {} t "medium" twinResolver).Ends (twinStudio "same" "same") supplied s' ∧
        OwnMedia (twinResolver.shelfIn (twinStudio "same" "same")) t supplied := by
  have hcheck : (Timeline.ofValue twinSnapshot).toOption.any (fun t =>
      let shelf := twinResolver.shelfIn (twinStudio "same" "same")
      ((prepareExport {} t "medium" twinResolver).exec (twinStudio "same" "same")).1.isOk &&
        (requiredClips t).all fun clip =>
          shelf.bytesNamed? (requiredClips t) clip.id = shelf.bytes? clip.source) = true := by
    decide +kernel
  obtain ⟨t, ht, hcheck⟩ := exists_ok_of_any hcheck
  obtain ⟨hok, hagree⟩ := Bool.and_eq_true_iff.1 hcheck
  obtain ⟨supplied, s', hends⟩ := Session.exists_ends hok
  refine ⟨t, ht, supplied, s', hends, (prepareExport_supplied hends).2.2 fun clip hclip _ => ?_⟩
  exact of_decide_eq_true (List.all_eq_true.1 hagree clip hclip)

theorem twinSnapshot_not_ownMedia :
    ∃ t, Timeline.ofValue twinSnapshot = .ok t ∧ ∃ supplied s',
      (prepareExport {} t "medium" twinResolver).Ends (twinStudio "first" "second") supplied s' ∧
        ¬ OwnMedia (twinResolver.shelfIn (twinStudio "first" "second")) t supplied := by
  have hcheck : (Timeline.ofValue twinSnapshot).toOption.any (fun t =>
      let shelf := twinResolver.shelfIn (twinStudio "first" "second")
      ((prepareExport {} t "medium" twinResolver).exec (twinStudio "first" "second")).1.isOk &&
        (requiredClips t).any fun clip => clip.source.isSome &&
          shelf.bytesNamed? (requiredClips t) clip.id ≠ shelf.bytes? clip.source) = true := by
    decide +kernel
  obtain ⟨t, ht, hcheck⟩ := exists_ok_of_any hcheck
  obtain ⟨hok, hdisagree⟩ := Bool.and_eq_true_iff.1 hcheck
  obtain ⟨supplied, s', hends⟩ := Session.exists_ends hok
  obtain ⟨clip, hclip, hdisagree⟩ := List.any_eq_true.1 hdisagree
  obtain ⟨hsource, hne⟩ := Bool.and_eq_true_iff.1 hdisagree
  refine ⟨t, ht, supplied, s', hends, fun hown => of_decide_eq_true hne ?_⟩
  exact (ownMedia_iff_idsAgree hends).1 hown clip hclip hsource

end Montage
