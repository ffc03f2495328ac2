import Montage.Asset.Fetch
import Montage.Proofs.Graph.Faults

/-!
# What files and sources can fail with

Operations on files, and fetching, fail for what is there and for values that they cannot use. They
never reject a request.
-/

namespace Montage

open Outcome

/-- Whether a fault is none of the rejections of a request. -/
def Fault.NotRejected (e : Fault) : Prop := ∀ why, e ≠ .rejected why

theorem Fault.IsMisuse.notRejected {e : Fault} (h : e.IsMisuse) : e.NotRejected := by
  obtain ⟨what, rfl⟩ := h
  exact nofun

namespace FileTree

variable (t : FileTree) (directory path : String)

theorem locate_failsOnly : FailsOnly Fault.NotRejected (t.locate directory path) := by
  unfold locate
  split
  · exact .error nofun
  · split
    · exact .error nofun
    · dsimp only
      split
      · exact .ok _
      · exact .error nofun

theorem readFile_failsOnly : FailsOnly Fault.NotRejected (t.readFile directory path) := by
  refine .bind (t.locate_failsOnly directory path) fun found _ => ?_
  split
  · exact .ok _
  · exact .error nofun
  · exact .error nofun

theorem spot_failsOnly : FailsOnly Fault.NotRejected (t.spot directory path) := by
  have hrefuse (cause : IoCause) :
      FailsOnly Fault.NotRejected (throw (.io ⟨cause, path⟩) : Except Fault (List String)) :=
    .error nofun
  have hlocate := t.locate_failsOnly directory
    (if (Path.split (trimSlashes path)).1.isEmpty then "." else (Path.split (trimSlashes path)).1)
  unfold spot
  dsimp only
  split
  · exact .error nofun
  split
  · exact hrefuse _
  split
  · exact hrefuse _
  split
  · refine .bind (.ok _) fun parent _ => ?_
    split
    · exact hrefuse _
    · split
      · exact hrefuse _
      · exact .ok _
    · exact hrefuse _
  · exact .error nofun
  · rename_i e _ he
    exact .error (hlocate e he)

theorem writeFile_failsOnly (data : ByteArray) :
    FailsOnly Fault.NotRejected (t.writeFile directory path data) := by
  unfold writeFile
  split
  · exact .bind (t.spot_failsOnly directory path) fun _ _ => .error nofun
  · refine .bind (t.locate_failsOnly directory path) fun found _ => ?_
    split
    · exact .error nofun
    · exact .ok _

theorem makeDirectory_failsOnly :
    FailsOnly Fault.NotRejected (t.makeDirectory directory path) := by
  refine .bind (t.spot_failsOnly directory path) fun place _ => ?_
  dsimp only
  split
  · exact .error nofun
  · exact .ok _

theorem tryMakeDirectory_failsOnly {e : Fault}
    (h : (t.tryMakeDirectory directory path).2 = some e) : e.NotRejected := by
  unfold tryMakeDirectory at h
  split at h
  · cases h
  · rename_i e' he
    obtain rfl : e' = e := Option.some.inj h
    exact t.makeDirectory_failsOnly directory path e' he

theorem makeDirectoriesWithin_failsOnly {directory path : String} {fuel : Nat} {t : FileTree}
    {e : Fault} (h : (makeDirectoriesWithin directory fuel t path).2 = some e) :
    e.NotRejected := by
  induction fuel generalizing path t with
  | zero =>
    rw [makeDirectoriesWithin] at h
    exact t.tryMakeDirectory_failsOnly directory path h
  | succ fuel ih =>
    rw [makeDirectoriesWithin] at h
    dsimp only at h
    generalize (if (Path.split path).2.isEmpty then Path.split (Path.split path).1
      else ((Path.split path).1, (Path.split path).2)) = above at h
    split at h
    · exact t.tryMakeDirectory_failsOnly directory path h
    · split at h
      · rename_i e' he
        obtain rfl : e' = e := Option.some.inj h
        exact ih (Option.filter_eq_some_iff.1 he).1
      · split at h
        · cases h
        · exact tryMakeDirectory_failsOnly _ directory path h

end FileTree

theorem Storage.read_failsOnly (storage : Storage) (t : FileTree) (path : String) :
    FailsOnly Fault.NotRejected (storage.read t path) := by
  refine .bind ?_ fun full _ => t.readFile_failsOnly "/" full
  unfold Storage.resolve
  split
  · exact .error nofun
  · dsimp only
    split
    · exact .ok _
    · exact .error nofun

theorem notText_isMisuse (v : Value) : (notText v).IsMisuse := by
  cases v <;> exact ⟨_, rfl⟩

namespace Shelf

variable (shelf : Shelf)

theorem fromStorage_failsOnly (path : Value) :
    FailsOnly Fault.NotRejected (shelf.fromStorage path) := by
  unfold fromStorage
  split
  · exact .ok _
  · rename_i storage _
    split
    · rename_i path
      have hread := storage.read_failsOnly shelf.tree path
      split
      · exact .ok _
      · exact .ok _
      · exact .ok _
      · rename_i e _ _ he
        exact .error (hread e he)
    · exact .error (notText_isMisuse _).notRejected

theorem download_failsOnly (url : String) : FailsOnly Fault.NotRejected (shelf.download url) := by
  unfold download
  split
  · split
    · exact .ok _
    · exact .ok _
    · exact .error nofun
  · exact .ok _

theorem fetchAddress_failsOnly (url : Value) (problems : List String) :
    FailsOnly Fault.NotRejected (shelf.fetchAddress url problems).outcome := by
  unfold fetchAddress
  dsimp only
  split
  · exact .error nofun
  · cases url with
    | text url =>
      dsimp only [fromAddress]
      split
      · exact .ok _
      · exact .error nofun
      · rename_i e he
        exact .error (shelf.download_failsOnly url e he)
    | _ => exact .error (notText_isMisuse _).notRejected

theorem fetch?_failsOnly (source : Option Source) :
    FailsOnly Fault.NotRejected (shelf.fetch? source).outcome := by
  unfold fetch?
  split
  · rename_i source
    unfold fetch
    split
    · exact shelf.fetchAddress_failsOnly _ _
    · have hstorage := shelf.fromStorage_failsOnly source.storagePath
      split
      · exact .ok _
      · exact shelf.fetchAddress_failsOnly _ _
      · rename_i e he
        exact .error (hstorage e he)
  · exact .error nofun

theorem resolve_failsOnly (clip : Clip) : FailsOnly Fault.NotRejected (shelf.resolve clip) := by
  have hfetch := shelf.fetch?_failsOnly clip.source
  unfold resolve
  split
  · exact .ok _
  · exact .ok _
  · rename_i e _ he
    exact .error (hfetch e he)

theorem resolveAll_failsOnly {clips : List Clip} {e : Fault}
    (h : (shelf.resolveAll clips).fault = some e) : e.NotRejected := by
  induction clips with
  | nil => cases h
  | cons clip rest ih =>
    have hstep : FailsOnly Fault.NotRejected
        (do let result ← shelf.resolve clip; return (result, ← result.report clip)) := by
      refine .bind (shelf.resolve_failsOnly clip) fun result _ => .bind ?_ fun _ _ => .ok _
      have hname : FailsOnly Fault.NotRejected clip.name.toText :=
        fun e he => (clip.name.toText_failsOnly e he).notRejected
      refine .bind hname fun name _ => ?_
      split <;> exact .ok _
    unfold resolveAll at h
    dsimp only at h
    split at h
    · rename_i e' he
      obtain rfl : e' = e := Option.some.inj h
      exact hstep e' he
    · exact ih h

end Shelf

end Montage
