import Montage.Proofs.Export.Media
import Montage.Proofs.Graph.DrawTexts
import Montage.Proofs.Studio.AtRest

/-!
# What an export hands to its driver

The files of the inputs and of the fonts that are found, and a program that names no other fonts
(`prepareExport_eq`). Preparing an export changes no files, so that fonts are found where they are at
its start.
-/

namespace Montage

open Montage.Graph Session

variable {σ : Type} {s s' : Studio σ} {resolver : Resolver}

/-- Studios with the same files in the same site. -/
def Studio.SameWorld (s s' : Studio σ) : Prop := s'.tree = s.tree ∧ s'.site = s.site

theorem Studio.SameWorld.of_atRest (h : s.AtRest s') : s.SameWorld s' := ⟨h.tree, h.site⟩

open Studio

namespace Resolver

/-- The bytes of a font in a studio, when there is a file for it. -/
def fontIn (r : Resolver) (s : Studio σ) (name : String) : Option ByteArray := do
  let path ← Font.find s.tree s.site.directory s.site.fonts name r.fontDirectories
  (s.tree.readFile s.site.directory path).toOption

theorem fontIn_congr (r : Resolver) (h : s.SameWorld s') : r.fontIn s' = r.fontIn s := by
  funext name
  rw [fontIn, fontIn, h.1, h.2]

theorem font?_ends {name : String} {found : Option ByteArray}
    (h : (resolver.font? name).Ends s found s') : found = resolver.fontIn s name := by
  obtain ⟨site, s₁, hsite, h⟩ := ends_bind.1 h
  obtain ⟨tree, s₂, htree, h⟩ := ends_bind.1 h
  obtain ⟨rfl, rfl⟩ := ends_site.1 hsite
  obtain ⟨rfl, rfl⟩ := ends_tree.1 htree
  rw [fontIn]
  split at h
  · rename_i path hpath
    obtain ⟨data, s₃, hread, h⟩ := ends_bind.1 h
    obtain ⟨tree, s₄, htree, hread⟩ := ends_bind.1 hread
    obtain ⟨site, s₅, hsite, hread⟩ := ends_bind.1 hread
    obtain ⟨rfl, rfl⟩ := ends_tree.1 htree
    obtain ⟨rfl, rfl⟩ := ends_site.1 hsite
    obtain ⟨hdata, -⟩ := ends_lift.1 hread
    obtain ⟨rfl, -⟩ := ends_pure.1 h
    simp [hpath, hdata, Except.toOption]
  · rename_i hnone
    obtain ⟨-, s₃, -, h⟩ := ends_bind.1 h
    obtain ⟨rfl, -⟩ := ends_pure.1 h
    simp [hnone]

end Resolver

/-- The files of the fonts that are found. -/
def fontPayloads (font? : String → Option ByteArray) (fonts : List String) : Payloads :=
  fonts.filterMap fun font => (font? font).map (fontFile font, ·)

def missingFonts (font? : String → Option ByteArray) (fonts : List String) : List String :=
  fonts.filter fun font => (font? font).isNone

theorem supplyFonts_eq {fonts : List String} {given supplied : Supplied}
    (h : (supplyFonts resolver fonts given).Ends s supplied s') :
    supplied.program =
        (missingFonts (resolver.fontIn s) fonts).foldl Program.dropFont given.program ∧
      supplied.payloads = given.payloads ++ fontPayloads (resolver.fontIn s) fonts := by
  induction fonts generalizing given s with
  | nil =>
    obtain ⟨rfl, -⟩ := ends_pure.1 h
    exact ⟨rfl, (List.append_nil _).symm⟩
  | cons font rest ih =>
    rw [supplyFonts] at h
    obtain ⟨found, s₁, hfound, h⟩ := ends_bind.1 h
    have hfont := Resolver.font?_ends hfound
    have hsame := resolver.fontIn_congr (.of_atRest ((AtRest.font? resolver font).ends hfound))
    cases found
    all_goals
      obtain ⟨hprogram, hpayloads⟩ := ih h
      rw [hsame] at hprogram hpayloads
      constructor
      · simp [hprogram, missingFonts, ← hfont]
      · simp [hpayloads, fontPayloads, ← hfont]

/-- What an export is made of: results of fetching, a program compiled with them, and its fonts. -/
theorem prepareExport_eq {compiler : Compiler} {t : Timeline} {quality : Value}
    {supplied : Supplied} (h : (prepareExport compiler t quality resolver).Ends s supplied s') :
    ∃ assets p, Compiled compiler t quality (some assets) p ∧
      supplied.program = (missingFonts (resolver.fontIn s) p.fonts).foldl Program.dropFont p ∧
      supplied.payloads = inputPayloads p assets ++ fontPayloads (resolver.fontIn s) p.fonts := by
  obtain ⟨assets, s₁, hassets, hafter⟩ := ends_bind.1 h
  obtain ⟨p, s₂, hlift, hcompiled⟩ := ends_bind.1 hafter
  obtain ⟨⟨⟩, s₃, hsay, hfonts⟩ := ends_bind.1 hcompiled
  obtain ⟨hcompile, rfl⟩ := ends_lift.1 hlift
  have hworld : s.SameWorld s₃ := .of_atRest (.trans s s₁ s₃
    ((AtRest.resolveAll resolver _).ends hassets) ((AtRest.say _).ends hsay))
  obtain ⟨hprogram, hpayloads⟩ := supplyFonts_eq hfonts
  rw [resolver.fontIn_congr hworld] at hprogram hpayloads
  exact ⟨assets, p, .of_compile hcompile, hprogram, hpayloads⟩

/-- Each input of a program that is compiled with some assets has bytes in them. -/
theorem map_fst_inputPayloads {compiler : Compiler} {t : Timeline} {quality : Value}
    {assets : Assets} {p : Program Binary64} (h : Compiled compiler t quality (some assets) p) :
    (inputPayloads p assets).map Prod.fst = p.inputs.map (·.name) := by
  have hdata : ∀ i ∈ p.inputs, ∃ data, (i.clipId.bind assets.get?).bind (·.data) = some data := by
    intro i hi
    obtain ⟨numbered, hmem, hspec⟩ := Outcome.exists_left_of_forall₂ h.inputs_kept hi
    have hkept := List.fst_mem_of_mem_zipIdx hmem
    rw [keptLayers_eq_filter] at hkept
    have havailable := (Bool.and_eq_true_iff.1 (List.mem_filter.1 hkept).2).2
    cases hget : assets.get? numbered.1.clip.id with
    | none => simp [hget] at havailable
    | some result =>
      have hok : result.ok = true := by simpa [hget] using havailable
      obtain ⟨data, hdata⟩ := Option.isSome_iff_exists.1 (Bool.and_eq_true_iff.1 hok).1
      exact ⟨data, by simp [hspec.clip_eq, hget, hdata]⟩
  rw [inputPayloads_eq, List.map_filterMap, ← List.filterMap_eq_map]
  refine List.filterMap_congr fun i hi => ?_
  obtain ⟨data, hdata⟩ := hdata i hi
  simp [hdata]

end Montage
