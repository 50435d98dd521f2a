import Mathlib.Data.List.Induction
import PtsTools.Config.Order

/-!
# How a run of `runccc` comes out

The loop of `runccc` assigns its options one after another.  So of every kind the last
option counts, and `-t` counts as a port as well.  `asked` says that without the loop,
and `exec_iff` says how a run comes out for any arguments behind the first: it ends
exactly if the arguments read as options, and then it does what was asked for.
-/

namespace PtsTools.Config

open PtsTools.Lib.While

/-! ## The last one counts -/

/-- The last text that some options give, or else the first one. -/
def lastOf (pick : Opt → Option Text) (first : Text) (opts : List Opt) : Text :=
  (opts.filterMap pick).getLast?.getD first

section

variable {pick : Opt → Option Text}

theorem lastOf_cons (first : Text) (o : Opt) (opts : List Opt) :
    lastOf pick first (o :: opts) = lastOf pick ((pick o).getD first) opts := by
  unfold lastOf
  cases hpick : pick o with
  | none =>
    rw [List.filterMap_cons_none hpick]
    rfl
  | some v =>
    rw [List.filterMap_cons_some hpick, List.getLast?_cons]
    rfl

/-- A variable that every option assigns or leaves as it is ends with the last text that
was assigned. -/
theorem foldl_eq_lastOf {get : Settings → Text} {apply : Settings → Opt → Settings}
    (h : ∀ st o, get (apply st o) = (pick o).getD (get st)) (opts : List Opt) (st : Settings) :
    get (opts.foldl apply st) = lastOf pick (get st) opts := by
  induction opts generalizing st with
  | nil => rfl
  | cons o opts ih => rw [List.foldl_cons, ih, h, lastOf_cons]

end

/-! ## What the options ask for -/

/-- The value that an option has for a key. -/
def Opt.value? (k : Key) : Opt → Option Text
  | .valued k' _ value => if k' = k then some value else none
  | .tls _ => none

/-- The port of an option, where `-t` stands for 443. -/
def Opt.tlsPort? : Opt → Option Text
  | .valued k _ value => if k = .port then some value else none
  | .tls _ => some "443".toList

/-- The directory of an option `-e`. -/
def Opt.exedir? (env : Env) (o : Opt) : Option Text :=
  (o.value? .exedir).map fun value => env.pwd ++ "/".toList ++ value

/-- The words that `-t` stands for. -/
def Opt.tls? : Opt → Option Text
  | .valued _ _ _ => none
  | .tls _ => some "-tls --runlevel0".toList

/-- The variables that the options ask for. -/
def asked (env : Env) (arg0 arg1 : Text) (opts : List Opt) : Settings where
  folder := lastOf (Opt.value? .folder) (runccc.start env arg0 arg1).folder opts
  passwd := lastOf (Opt.value? .password) (runccc.start env arg0 arg1).passwd opts
  port := lastOf Opt.tlsPort? (runccc.start env arg0 arg1).port opts
  releaseDir := lastOf (Opt.exedir? env) (runccc.start env arg0 arg1).releaseDir opts
  tls := lastOf Opt.tls? (runccc.start env arg0 arg1).tls opts
  ipaddr := (runccc.start env arg0 arg1).ipaddr

section

variable (env : Env) (st : Settings) (o : Opt)

theorem runccc_apply_folder :
    (runccc.apply env st o).folder = (o.value? .folder).getD st.folder := by
  cases o with
  | valued k long v => cases k <;> rfl
  | tls long => rfl

theorem runccc_apply_passwd :
    (runccc.apply env st o).passwd = (o.value? .password).getD st.passwd := by
  cases o with
  | valued k long v => cases k <;> rfl
  | tls long => rfl

theorem runccc_apply_tlsPort : (runccc.apply env st o).port = o.tlsPort?.getD st.port := by
  cases o with
  | valued k long v => cases k <;> rfl
  | tls long => rfl

theorem runccc_apply_releaseDir :
    (runccc.apply env st o).releaseDir = (o.exedir? env).getD st.releaseDir := by
  cases o with
  | valued k long v => cases k <;> rfl
  | tls long => rfl

theorem runccc_apply_tls : (runccc.apply env st o).tls = o.tls?.getD st.tls := by
  cases o with
  | valued k long v => cases k <;> rfl
  | tls long => rfl

theorem runccc_apply_ipaddr : (runccc.apply env st o).ipaddr = st.ipaddr := by
  cases o with
  | valued k long v => cases k <;> rfl
  | tls long => rfl

end

/-- The options assign what they ask for. -/
theorem foldl_apply_eq_asked (env : Env) (arg0 arg1 : Text) (opts : List Opt) :
    opts.foldl (runccc.apply env) (runccc.start env arg0 arg1) = asked env arg0 arg1 opts := by
  have hipaddr : (opts.foldl (runccc.apply env) (runccc.start env arg0 arg1)).ipaddr =
      (runccc.start env arg0 arg1).ipaddr := by
    induction opts using List.reverseRecOn with
    | nil => rfl
    | append_singleton opts o ih =>
      rw [List.foldl_append]
      exact (runccc_apply_ipaddr env _ o).trans ih
  have hfolder := foldl_eq_lastOf (runccc_apply_folder env) opts (runccc.start env arg0 arg1)
  have hpasswd := foldl_eq_lastOf (runccc_apply_passwd env) opts (runccc.start env arg0 arg1)
  have hport := foldl_eq_lastOf (runccc_apply_tlsPort env) opts (runccc.start env arg0 arg1)
  have hdir := foldl_eq_lastOf (runccc_apply_releaseDir env) opts (runccc.start env arg0 arg1)
  have htls := foldl_eq_lastOf (runccc_apply_tls env) opts (runccc.start env arg0 arg1)
  unfold asked
  rw [← hipaddr, ← hfolder, ← hpasswd, ← hport, ← hdir, ← htls]

/-- The words of the command behind `eee`. -/
def commandLine (env : Env) (st : Settings) : List Text :=
  words (runccc.configexe env st) ++ words st.ipaddr ++ words st.port ++ ["admin".toList] ++
    words st.passwd ++ words st.folder ++ words st.tls

theorem finish_eq_ran {env : Env} {st : Settings}
    (hfile : env.isFile (runccc.configexe env st) = true) :
    runccc.finish env st = .ran ("eee".toList :: commandLine env st) := by
  unfold Script.finish
  dsimp only
  rw [if_pos hfile]
  rfl

/-! ## Any arguments -/

/-- The arguments read as options.  The value of the last one may be missing, and is
empty then. -/
def Reads (args : List Text) (opts : List Opt) : Prop :=
  args = opts.flatMap Opt.words ∨
    ∃ front k long, opts = front ++ [.valued k long []] ∧
      args = front.flatMap Opt.words ++ [k.word long]

/-- The loop ends on arguments that read as options. -/
theorem ends_of_reads (env : Env) (st : Settings) {args : List Text} {opts : List Opt}
    (h : Reads args opts) :
    (runccc.loop env).Ends (st, args) (opts.foldl (runccc.apply env) st, []) := by
  rcases h with hargs | ⟨front, k, long, hopts, hargs⟩
  · rw [hargs]
    exact ends_nil env st (runccc_has opts)
  · -- a `shift` behind the last word finds nothing to take
    have hk : k ∈ runccc.keys := runccc_has [.valued k long []] _ List.mem_cons_self
    rw [hargs, hopts, List.foldl_append, ends_options env st (runccc_has front),
      ends_valued env _ hk]
    exact ends_done rfl

theorem reads_of_readable {args : List Text} (h : runccc.Readable args) :
    ∃ opts, Reads args opts := by
  obtain ⟨opts, -, hargs | ⟨k, -, long, hargs⟩⟩ := h
  · exact ⟨opts, Or.inl hargs⟩
  · exact ⟨opts ++ [.valued k long []], Or.inr ⟨opts, k, long, rfl, hargs⟩⟩

/-- A run ends exactly if its arguments read as options, and it comes out as they ask
for. -/
theorem exec_iff (env : Env) (arg0 arg1 : Text) (args : List Text) (out : Outcome) :
    (∃ fuel, runccc.exec env fuel arg0 (arg1 :: args) = some out) ↔
      ∃ opts, Reads args opts ∧ out = runccc.finish env (asked env arg0 arg1 opts) := by
  constructor
  · intro h
    obtain ⟨fuel, hfuel⟩ := h
    unfold Script.exec at hfuel
    obtain ⟨last, hlast, hout⟩ := Option.map_eq_some_iff.mp hfuel
    have hends : (runccc.loop env).Ends (runccc.start env arg0 arg1, args) last := ⟨fuel, hlast⟩
    obtain ⟨opts, hopts⟩ := reads_of_readable ((terminates_iff _ _ _ _).mp ⟨last, hends⟩)
    refine ⟨opts, hopts, ?_⟩
    rw [← hout, Ends.unique hends (ends_of_reads env _ hopts), foldl_apply_eq_asked]
  · intro h
    obtain ⟨opts, hopts, hout⟩ := h
    rw [hout, ← foldl_apply_eq_asked]
    exact exec_of_ends (ends_of_reads env _ hopts)

end PtsTools.Config
