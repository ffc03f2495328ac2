import Montage.Proofs.Outcome
import Montage.Studio.Basic

/-!
# Sessions that end

What a session does to a studio when it ends without a fault, one lemma for each way of putting
sessions together.
-/

namespace Montage.Session

variable {σ α β : Type} {s s' : Studio σ} {a b : α}

/-- What a session gives when it starts in a studio, and the studio that it leaves. -/
def exec (m : Session σ α) (s : Studio σ) : Except Fault α × Studio σ :=
  Id.run (StateT.run (ExceptT.run m) s)

/-- A session that starts in one studio gives a result and leaves another. -/
def Ends (m : Session σ α) (s : Studio σ) (a : α) (s' : Studio σ) : Prop := m.exec s = (.ok a, s')

theorem exists_ends {m : Session σ α} (h : (m.exec s).1.isOk = true) : ∃ a s', Ends m s a s' := by
  unfold Ends
  rcases hexec : m.exec s with ⟨e | a, s'⟩
  · rw [hexec] at h
    cases h
  · exact ⟨a, s', rfl⟩

theorem exec_pure (a : α) (s : Studio σ) : exec (pure a) s = (.ok a, s) := rfl

theorem exec_lift (r : Except Fault α) (s : Studio σ) : exec (lift r) s = (r, s) := rfl

theorem exec_get (s : Studio σ) : exec (get : Session σ (Studio σ)) s = (.ok s, s) := rfl

theorem exec_modify (f : Studio σ → Studio σ) (s : Studio σ) :
    exec (modify f : Session σ Unit) s = (.ok (), f s) :=
  rfl

theorem exec_bind (m : Session σ α) (f : α → Session σ β) (s : Studio σ) :
    (m >>= f).exec s = match m.exec s with
      | (.ok a, s₁) => (f a).exec s₁
      | (.error e, s₁) => (.error e, s₁) := by
  unfold exec ExceptT.run StateT.run Id.run
  simp only [bind, ExceptT.bind, ExceptT.mk, StateT.bind]
  cases m s with
  | mk outcome s₁ => cases outcome <;> rfl

theorem ends_bind {m : Session σ α} {f : α → Session σ β} {c : β} :
    Ends (m >>= f) s c s' ↔ ∃ a s₁, Ends m s a s₁ ∧ Ends (f a) s₁ c s' := by
  simp only [Ends, exec_bind]
  rcases m.exec s with ⟨_ | a, s₁⟩
  · simp
  · simp only [Prod.mk.injEq, Except.ok.injEq]
    exact ⟨fun h => ⟨a, s₁, ⟨rfl, rfl⟩, h⟩, fun ⟨_, _, ⟨rfl, rfl⟩, h⟩ => h⟩

theorem ends_pure : Ends (pure a) s b s' ↔ a = b ∧ s = s' := by
  simp [Ends, exec_pure]

theorem ends_lift {r : Except Fault α} : Ends (lift r) s a s' ↔ r = .ok a ∧ s = s' := by
  simp [Ends, exec_lift]

theorem ends_throw {e : Fault} : ¬ Ends (throw e) s a s' := by
  have hexec : exec (throw e : Session σ α) s = (.error e, s) := rfl
  simp [Ends, hexec]

theorem ends_tree {t : FileTree} : Ends tree s t s' ↔ s.tree = t ∧ s = s' := by
  have hexec : exec tree s = (.ok s.tree, s) := rfl
  simp [Ends, hexec]

theorem ends_site {x : Site} : Ends site s x s' ↔ s.site = x ∧ s = s' := by
  have hexec : exec site s = (.ok s.site, s) := rfl
  simp [Ends, hexec]

theorem ends_modify {f : Studio σ → Studio σ} {u : Unit} :
    Ends (modify f) s u s' ↔ s' = f s := by
  simp [Ends, exec_modify, eq_comm]

theorem ends_driver {id : Nat} {state : DriverState} :
    Ends (driver id) s state s' ↔ s.pool.drivers id = state ∧ s = s' := by
  have hexec : exec (driver id) s = (.ok (s.pool.drivers id), s) := rfl
  simp [Ends, hexec]

theorem say_ends (message : String) (s : Studio σ) : ∃ s', Ends (say message) s () s' :=
  ⟨_, ends_modify.2 rfl⟩

theorem exists_ends_forM {g : α → Session σ Unit} (hg : ∀ a s, ∃ s', Ends (g a) s () s')
    (as : List α) (s : Studio σ) : ∃ s', Ends (as.forM g) s () s' := by
  induction as generalizing s with
  | nil => exact ⟨s, ends_pure.2 ⟨rfl, rfl⟩⟩
  | cons a as ih =>
    obtain ⟨s₁, hfirst⟩ := hg a s
    obtain ⟨s', hrest⟩ := ih s₁
    exact ⟨s', ends_bind.2 ⟨(), s₁, hfirst, hrest⟩⟩

theorem exists_ends_of_mem {g : α → Session σ β} {as : List α} {bs : List β}
    (h : Ends (as.mapM g) s bs s') {a : α} (ha : a ∈ as) : ∃ s₁ b s₂, Ends (g a) s₁ b s₂ := by
  induction as generalizing s bs with
  | nil => cases ha
  | cons first rest ih =>
    rw [List.mapM_cons] at h
    obtain ⟨b, s₁, hfirst, h⟩ := ends_bind.1 h
    obtain ⟨bs', s₂, hrest, h⟩ := ends_bind.1 h
    obtain ⟨-, rfl⟩ := ends_pure.1 h
    rcases List.mem_cons.1 ha with rfl | ha
    · exact ⟨s, b, s₁, hfirst⟩
    · exact ih hrest ha

/-! ### However a session ends -/

/-- A session relates the studio that it starts in to the one that it leaves, with a fault or
without. -/
def Respects (R : Studio σ → Studio σ → Prop) (m : Session σ α) : Prop := ∀ s, R s (m.exec s).2

section Respects

variable {R : Studio σ → Studio σ → Prop} {m : Session σ α} {f : α → Session σ β}

theorem Respects.ends (h : Respects R m) (hends : Ends m s a s') : R s s' := by
  have hR := h s
  rwa [show m.exec s = (.ok a, s') from hends] at hR

theorem Respects.mono {S : Studio σ → Studio σ → Prop} (h : Respects R m)
    (himp : ∀ s s', R s s' → S s s') : Respects S m :=
  fun s => himp s _ (h s)

theorem respects_modify {g : Studio σ → Studio σ} (h : ∀ s, R s (g s)) :
    Respects R (modify g : Session σ Unit) :=
  h

theorem respects_pure (hrefl : ∀ s, R s s) (a : α) : Respects R (pure a) := hrefl

theorem respects_throw (hrefl : ∀ s, R s s) (e : Fault) :
    Respects R (throw e : Session σ α) :=
  hrefl

theorem respects_get {h : Studio σ → Session σ α} (hh : ∀ s, R s ((h s).exec s).2) :
    Respects R (get >>= h) :=
  hh

theorem respects_tree (hrefl : ∀ s, R s s) : Respects R (tree : Session σ FileTree) := hrefl

theorem respects_site (hrefl : ∀ s, R s s) : Respects R (site : Session σ Site) := hrefl

theorem respects_lift (hrefl : ∀ s, R s s) (r : Except Fault α) : Respects R (lift r) := hrefl

/-- A session that is followed by another one ends with a fault of its own, or where the other one
ends. -/
theorem Respects.bind {P Q : Studio σ → Studio σ → Prop} (hm : Respects P m)
    (hf : ∀ a s s₁, Ends m s a s₁ → Respects Q (f a)) (hfault : ∀ s s', P s s' → R s s')
    (hboth : ∀ s s₁ s', P s s₁ → Q s₁ s' → R s s') : Respects R (m >>= f) := by
  intro s
  have hfirst := hm s
  rw [exec_bind]
  rcases hexec : m.exec s with ⟨e | a, s₁⟩
  all_goals rw [hexec] at hfirst
  · exact hfault s s₁ hfirst
  · exact hboth s s₁ _ hfirst (hf a s s₁ hexec s₁)

theorem respects_bind_of_ends (htrans : ∀ s₁ s₂ s₃, R s₁ s₂ → R s₂ s₃ → R s₁ s₃)
    (hm : Respects R m) (hf : ∀ a s s₁, Ends m s a s₁ → Respects R (f a)) :
    Respects R (m >>= f) :=
  hm.bind hf (fun _ _ => id) htrans

theorem respects_bind (htrans : ∀ s₁ s₂ s₃, R s₁ s₂ → R s₂ s₃ → R s₁ s₃) (hm : Respects R m)
    (hf : ∀ a, Respects R (f a)) : Respects R (m >>= f) :=
  respects_bind_of_ends htrans hm fun a _ _ _ => hf a

theorem respects_update (htrans : ∀ s₁ s₂ s₃, R s₁ s₂ → R s₂ s₃ → R s₁ s₃)
    {g : Studio σ → Studio σ} {h : Studio σ → Session σ α} (hg : ∀ s, R s (g s))
    (hh : ∀ s, Respects R (h s)) :
    Respects R (get >>= fun s => set (g s) >>= fun _ => h s) :=
  fun s => htrans s (g s) _ (hg s) (hh s (g s))

theorem respects_forM_of_mem (hrefl : ∀ s, R s s)
    (htrans : ∀ s₁ s₂ s₃, R s₁ s₂ → R s₂ s₃ → R s₁ s₃) {g : α → Session σ Unit} {as : List α}
    (hg : ∀ a ∈ as, Respects R (g a)) : Respects R (as.forM g) := by
  induction as with
  | nil => exact respects_pure hrefl ()
  | cons a as ih =>
    obtain ⟨hfirst, hrest⟩ := List.forall_mem_cons.1 hg
    exact respects_bind htrans hfirst fun _ => ih hrest

theorem respects_forM (hrefl : ∀ s, R s s) (htrans : ∀ s₁ s₂ s₃, R s₁ s₂ → R s₂ s₃ → R s₁ s₃)
    {g : α → Session σ Unit} (hg : ∀ a, Respects R (g a)) (as : List α) :
    Respects R (as.forM g) :=
  respects_forM_of_mem hrefl htrans fun a _ => hg a

theorem respects_mapM (hrefl : ∀ s, R s s) (htrans : ∀ s₁ s₂ s₃, R s₁ s₂ → R s₂ s₃ → R s₁ s₃)
    {g : α → Session σ β} (hg : ∀ a, Respects R (g a)) (as : List α) :
    Respects R (as.mapM g) := by
  induction as with
  | nil => exact respects_pure hrefl []
  | cons a as ih =>
    rw [List.mapM_cons]
    refine respects_bind htrans (hg a) fun b => ?_
    exact respects_bind htrans ih fun bs => respects_pure hrefl (b :: bs)

theorem readFile_respects (hrefl : ∀ s, R s s) (htrans : ∀ s₁ s₂ s₃, R s₁ s₂ → R s₂ s₃ → R s₁ s₃)
    (path : String) : Respects R (readFile path : Session σ ByteArray) :=
  respects_bind htrans (respects_tree hrefl) fun _ =>
    respects_bind htrans (respects_site hrefl) fun _ => respects_lift hrefl _

/-- A message goes into the journal or to the program in front, and it may be printed. -/
theorem say_respects (hrefl : ∀ s, R s s) (htrans : ∀ s₁ s₂ s₃, R s₁ s₂ → R s₂ s₃ → R s₁ s₃)
    {message : String} (hlines : ∀ s lines, R s { s with lines })
    (hfront : ∀ s hear, s.listener = .front hear → R s { s with front := hear message s.front })
    (hprinted : ∀ s printed, R s { s with printed }) :
    Respects R (say message : Session σ Unit) := by
  refine respects_modify fun s => ?_
  have hheard : R s (hear message s) := by
    unfold hear
    split
    · exact hrefl s
    · exact hlines s _
    · rename_i hear hlistener
      exact hfront s hear hlistener
  dsimp only
  split
  · exact hheard
  · exact htrans _ _ _ hheard (hprinted _ _)

theorem exec_attempt (m : Session σ α) (s : Studio σ) :
    (attempt m).exec s = (.ok (m.exec s).1, (m.exec s).2) :=
  rfl

theorem ends_attempt {outcome : Except Fault α} :
    Ends (attempt m) s outcome s' ↔ m.exec s = (outcome, s') := by
  rw [Ends, exec_attempt]
  rcases m.exec s with ⟨outcome', s₁⟩
  simp

theorem respects_attempt (hm : Respects R m) : Respects R (attempt m) := hm

end Respects

/-! ### What can go wrong in a session -/

/-- Whatever goes wrong in a session that starts in a studio is of an allowed kind. -/
def FailsOnly (allowed : Fault → Prop) (m : Session σ α) (s : Studio σ) : Prop :=
  Outcome.FailsOnly allowed (m.exec s).1

section FailsOnly

variable {allowed : Fault → Prop} {m : Session σ α} {f : α → Session σ β}

theorem failsOnly_modify (g : Studio σ → Studio σ) :
    FailsOnly allowed (modify g : Session σ Unit) s :=
  .ok ()

theorem failsOnly_pure (a : α) : FailsOnly allowed (pure a) s := .ok a

theorem failsOnly_lift {r : Except Fault α} (h : Outcome.FailsOnly allowed r) :
    FailsOnly allowed (lift r) s :=
  h

theorem failsOnly_throw {e : Fault} (h : allowed e) :
    FailsOnly allowed (throw e : Session σ α) s :=
  .error h

theorem failsOnly_attempt : FailsOnly allowed (attempt m) s := .ok _

theorem failsOnly_bind (hm : FailsOnly allowed m s)
    (hf : ∀ a s₁, Ends m s a s₁ → FailsOnly allowed (f a) s₁) :
    FailsOnly allowed (m >>= f) s := by
  rw [FailsOnly, exec_bind]
  rcases hexec : m.exec s with ⟨e | a, s₁⟩
  · rw [FailsOnly, hexec] at hm
    exact .error (hm e rfl)
  · exact hf a s₁ hexec

theorem failsOnly_get {f : Studio σ → Session σ α} (h : FailsOnly allowed (f s) s) :
    FailsOnly allowed (get >>= f) s :=
  h

theorem failsOnly_set {f : Unit → Session σ α} (h : FailsOnly allowed (f ()) s') :
    FailsOnly allowed (set s' >>= f) s :=
  h

theorem failsOnly_tree {f : FileTree → Session σ α} (h : FailsOnly allowed (f s.tree) s) :
    FailsOnly allowed (tree >>= f) s :=
  h

theorem failsOnly_site {f : Site → Session σ α} (h : FailsOnly allowed (f s.site) s) :
    FailsOnly allowed (site >>= f) s :=
  h

theorem failsOnly_forM {g : α → Session σ Unit} {as : List α}
    (hg : ∀ a ∈ as, ∀ s, FailsOnly allowed (g a) s) : FailsOnly allowed (as.forM g) s := by
  induction as generalizing s with
  | nil => exact failsOnly_pure ()
  | cons a as ih =>
    obtain ⟨hfirst, hrest⟩ := List.forall_mem_cons.1 hg
    exact failsOnly_bind (hfirst s) fun _ _ _ => ih hrest

end FailsOnly

end Montage.Session
