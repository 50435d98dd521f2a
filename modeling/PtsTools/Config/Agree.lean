import Mathlib.Data.List.Induction
import PtsTools.Config.Options

/-!
# `runccc` and `linuxccc` side by side

Both scripts read `-p`, `-w`, `-f` and `-t`, and both know a name that stands for
TLS.  On the same options they end with the same password and the same folder:
`foldl_shared`.  The arm of `-t` is not the same.  In `runccc` it assigns `Port` as
well, and the lines for the TLS name assign no `Tls`.  So the scripts agree on TLS
if the TLS name comes with `-t`, and on the port if no `-t` changes it: `agree_iff`.
-/

namespace PtsTools.Config

open PtsTools.Lib.While

/-- What the scripts connect with is the same. -/
structure Same (st st' : Settings) : Prop where
  port : st.port = st'.port
  passwd : st.passwd = st'.passwd
  folder : st.folder = st'.folder
  tls : st.tls ≠ [] ↔ st'.tls ≠ []

/-- The loops of `runccc` and `linuxccc` end with the same, from the names of the
scripts and the same address and options. -/
def Agree (env env' : Env) (arg0 arg0' arg1 : Text) (opts : List Opt) : Prop :=
  ∃ st st',
    (runccc.loop env).Ends (runccc.start env arg0 arg1, opts.flatMap Opt.words) (st, []) ∧
    (linuxccc.loop env').Ends (linuxccc.start env' arg0' arg1, opts.flatMap Opt.words)
      (st', []) ∧
    Same st st'

/-! ## What the options say -/

/-- The port of an option. -/
def Opt.port? : Opt → Option Text
  | .valued .port _ value => some value
  | _ => none

/-- The last port of the options, or the first value of `Port`. -/
def lastPort (first : Text) (opts : List Opt) : Text :=
  (opts.filterMap Opt.port?).getLast?.getD first

/-- The first value of `Port`. -/
def firstPort (named : Prop) [Decidable named] : Text :=
  if named then "443".toList else "80".toList

/-- A port comes behind every `-t`, or the last one in front of it is 443. -/
def PortHeld (first : Text) (opts : List Opt) : Prop :=
  ∀ front long back, opts = front ++ .tls long :: back →
    (∃ o ∈ back, o.port?.isSome) ∨ lastPort first front = "443".toList

/-! ## In front of the loops -/

variable (env env' : Env) (arg0 arg0' arg1 : Text)

/-- The variables in front of the line for the TLS name. -/
def Script.first (s : Script) : Settings :=
  { folder := "--path:".toList ++ arg1, passwd := "12345".toList, port := "80".toList,
    releaseDir := s.releaseDir env, tls := [], ipaddr := [] }

/-- The name of the script decides, and the address changes nothing else. -/
theorem start_eq (s : Script) : ∃ ip, s.start env arg0 arg1 =
    { (if arg0 = s.tlsName then s.named (s.first env arg1) else s.first env arg1)
      with ipaddr := ip } := by
  unfold Script.start Script.first
  split_ifs
  · exact ⟨_, rfl⟩
  · exact ⟨_, rfl⟩
  · exact ⟨_, rfl⟩
  · exact ⟨_, rfl⟩
  · exact ⟨_, rfl⟩
  · exact ⟨_, rfl⟩

theorem runccc_start_port :
    (runccc.start env arg0 arg1).port = firstPort (arg0 = runccc.tlsName) := by
  rcases start_eq env arg0 arg1 runccc with ⟨ip, hstart⟩
  rw [hstart, firstPort]
  split_ifs
  · rfl
  · rfl

/-- The lines for the TLS name leave `Tls` unset in `runccc`. -/
theorem runccc_start_tls : (runccc.start env arg0 arg1).tls = [] := by
  rcases start_eq env arg0 arg1 runccc with ⟨ip, hstart⟩
  rw [hstart]
  split_ifs
  · rfl
  · rfl

/-- They assign it in `linuxccc`. -/
theorem linuxccc_start_tls :
    (linuxccc.start env arg0 arg1).tls ≠ [] ↔ arg0 = linuxccc.tlsName := by
  rcases start_eq env arg0 arg1 linuxccc with ⟨ip, hstart⟩
  have htls : "-tls".toList ≠ [] := by decide
  rw [hstart]
  split_ifs with hname
  · exact iff_of_true htls hname
  · exact iff_of_false (fun h => h rfl) hname

/-- Otherwise the variables in front of the loops are the same. -/
theorem start_shared (hmode : arg0 = runccc.tlsName ↔ arg0' = linuxccc.tlsName) :
    (runccc.start env arg0 arg1).port = (linuxccc.start env' arg0' arg1).port ∧
      (runccc.start env arg0 arg1).passwd = (linuxccc.start env' arg0' arg1).passwd ∧
      (runccc.start env arg0 arg1).folder = (linuxccc.start env' arg0' arg1).folder := by
  rcases start_eq env arg0 arg1 runccc with ⟨ip, hstart⟩
  rcases start_eq env' arg0' arg1 linuxccc with ⟨ip', hstart'⟩
  rw [hstart, hstart']
  by_cases hname : arg0 = runccc.tlsName
  · rw [if_pos hname, if_pos (hmode.mp hname)]
    exact ⟨rfl, rfl, rfl⟩
  · rw [if_neg hname, if_neg fun hname' => hname (hmode.mpr hname')]
    exact ⟨rfl, rfl, rfl⟩

/-! ## The options -/

variable (st st' : Settings) (opts : List Opt)

/-- On the same options the loops assign the same password and the same folder. -/
theorem foldl_shared (h : st.passwd = st'.passwd ∧ st.folder = st'.folder) :
    (opts.foldl (runccc.apply env) st).passwd = (opts.foldl (linuxccc.apply env') st').passwd ∧
      (opts.foldl (runccc.apply env) st).folder =
        (opts.foldl (linuxccc.apply env') st').folder := by
  apply List.foldl_rel
    (r := fun st st' : Settings => st.passwd = st'.passwd ∧ st.folder = st'.folder) h
  intro o _ st st' hshared
  cases o with
  | valued k long v =>
    cases k with
    | port => exact hshared
    | password => exact ⟨rfl, hshared.2⟩
    | folder => exact ⟨hshared.1, rfl⟩
    | exedir => exact hshared
  | tls long => exact hshared

/-- `Tls` is set behind the loop if it was before or if `-t` is among the options. -/
theorem foldl_tls {s : Script} (hs : ∀ st, (s.tls st).tls ≠ []) :
    (opts.foldl (s.apply env) st).tls ≠ [] ↔ st.tls ≠ [] ∨ ∃ long, .tls long ∈ opts := by
  induction opts generalizing st with
  | nil => simp
  | cons o opts ih =>
    rw [List.foldl_cons, ih]
    cases o with
    | valued k long v =>
      have htls : (s.apply env st (.valued k long v)).tls = st.tls := by
        cases k with
        | port => rfl
        | password => rfl
        | folder => rfl
        | exedir => rfl
      rw [htls]
      simp
    | tls long => exact iff_of_true (Or.inl (hs st)) (Or.inr ⟨long, List.mem_cons_self⟩)

theorem lastPort_append_port (first : Text) {o : Opt} {v : Text} (ho : o.port? = some v) :
    lastPort first (opts ++ [o]) = v := by
  rw [lastPort, List.filterMap_append, List.filterMap_cons_some ho]
  simp

theorem lastPort_append_other (first : Text) {o : Opt} (ho : o.port? = none) :
    lastPort first (opts ++ [o]) = lastPort first opts := by
  rw [lastPort, List.filterMap_append, List.filterMap_cons_none ho]
  simp [lastPort]

/-- An option of `linuxccc` changes the port if it is one. -/
theorem linuxccc_apply_port (o : Opt) :
    (linuxccc.apply env st o).port = o.port?.getD st.port := by
  cases o with
  | valued k long v => cases k <;> rfl
  | tls long => rfl

/-- An option of `runccc` does the same, `-t` excepted. -/
theorem runccc_apply_port {o : Opt} (ho : ∀ long, o ≠ .tls long) :
    (runccc.apply env st o).port = o.port?.getD st.port := by
  cases o with
  | valued k long v => cases k <;> rfl
  | tls long => exact absurd rfl (ho long)

/-- `linuxccc` ends with the last port. -/
theorem linuxccc_foldl_port :
    (opts.foldl (linuxccc.apply env) st).port = lastPort st.port opts := by
  induction opts using List.reverseRecOn with
  | nil => rfl
  | append_singleton opts o ih =>
    rw [List.foldl_append]
    show (linuxccc.apply env _ o).port = _
    rw [linuxccc_apply_port env]
    cases ho : o.port? with
    | none => rw [lastPort_append_other opts _ ho, ← ih]; rfl
    | some v => rw [lastPort_append_port opts _ ho]; rfl

/-- Where `-t` or another option stands in a list with one more option. -/
theorem append_eq_split {opts front back : List Opt} {o x : Opt}
    (h : opts ++ [o] = front ++ x :: back) :
    (back = [] ∧ front = opts ∧ x = o) ∨
      ∃ back', back = back' ++ [o] ∧ opts = front ++ x :: back' := by
  rcases List.eq_nil_or_concat back with hback | ⟨back', o', hback⟩
  · left
    rw [hback] at h
    have hsplit := List.append_inj' h rfl
    exact ⟨hback, hsplit.1.symm, (List.singleton_inj.mp hsplit.2).symm⟩
  · right
    rw [List.concat_eq_append] at hback
    rw [hback, ← List.cons_append, ← List.append_assoc] at h
    have hsplit := List.append_inj' h rfl
    rw [← List.singleton_inj.mp hsplit.2] at hback
    exact ⟨back', hback, hsplit.1⟩

theorem lastPort_append (first : Text) {back : List Opt} (hback : ∀ o ∈ back, o.port? = none) :
    lastPort first (opts ++ back) = lastPort first opts := by
  have hnil : back.filterMap Opt.port? = [] := List.filterMap_eq_nil_iff.mpr hback
  rw [lastPort, List.filterMap_append, hnil, List.append_nil, lastPort]

/-- With `-t` at the end, the last port has to be 443. -/
theorem portHeld_tls (first : Text) (long : Bool) :
    PortHeld first (opts ++ [.tls long]) ↔ lastPort first opts = "443".toList := by
  constructor
  · intro h
    rcases h opts long [] rfl with ⟨o, ho, -⟩ | hlast
    · exact absurd ho List.not_mem_nil
    · exact hlast
  · intro hlast front long' back hsplit
    by_cases hport : ∃ o ∈ back, o.port?.isSome
    · exact Or.inl hport
    · right
      rcases append_eq_split hsplit with ⟨-, hfront, -⟩ | ⟨back', hback, hopts⟩
      · rw [hfront, hlast]
      · have hnone : ∀ o ∈ .tls long' :: back', o.port? = none := by
          intro o ho
          rcases List.mem_cons.mp ho with heq | ho
          · rw [heq]
            rfl
          · have hmem : o ∈ back := by
              rw [hback]
              exact List.mem_append_left _ ho
            exact Option.not_isSome_iff_eq_none.mp fun hsome => hport ⟨o, hmem, hsome⟩
        rw [← lastPort_append front first hnone, ← hopts, hlast]

/-- An option at the end that is not `-t` helps if it is a port. -/
theorem portHeld_other (first : Text) {o : Opt} (ho : ∀ long, o ≠ .tls long) :
    PortHeld first (opts ++ [o]) ↔ o.port?.isSome ∨ PortHeld first opts := by
  constructor
  · intro h
    by_cases hport : o.port?.isSome
    · exact Or.inl hport
    · right
      intro front long back hopts
      have hopts' : opts ++ [o] = front ++ .tls long :: (back ++ [o]) := by
        rw [hopts, List.append_assoc, List.cons_append]
      rcases h front long (back ++ [o]) hopts' with ⟨o', ho', hport'⟩ | hlast
      · rcases List.mem_append.mp ho' with hmem | hmem
        · exact Or.inl ⟨o', hmem, hport'⟩
        · rw [List.mem_singleton.mp hmem] at hport'
          exact absurd hport' hport
      · exact Or.inr hlast
  · intro h front long back hsplit
    rcases append_eq_split hsplit with ⟨-, -, heq⟩ | ⟨back', hback, hopts⟩
    · exact absurd heq.symm (ho long)
    · have hend : o ∈ back := by
        rw [hback]
        exact List.mem_append_right _ (List.mem_singleton_self o)
      rcases h with hport | h
      · exact Or.inl ⟨o, hend, hport⟩
      · rcases h front long back' hopts with ⟨o', ho', hport'⟩ | hlast
        · left
          refine ⟨o', ?_, hport'⟩
          rw [hback]
          exact List.mem_append_left _ ho'
        · exact Or.inr hlast

/-- The loops end with the same port exactly if no `-t` changes it. -/
theorem foldl_port_iff (hport : st.port = st'.port) :
    (opts.foldl (runccc.apply env) st).port = (opts.foldl (linuxccc.apply env') st').port ↔
      PortHeld st'.port opts := by
  induction opts using List.reverseRecOn with
  | nil =>
    apply iff_of_true hport
    intro front long back h
    exact absurd h.symm (by simp)
  | append_singleton opts o ih =>
    rw [linuxccc_foldl_port, List.foldl_append]
    show (runccc.apply env _ o).port = _ ↔ _
    cases o with
    | tls long =>
      rw [portHeld_tls, lastPort_append_other opts _ rfl]
      exact eq_comm
    | valued k long v =>
      have hne : ∀ long', Opt.valued k long v ≠ .tls long' := by
        intro long' heq
        cases heq
      rw [runccc_apply_port env _ hne, portHeld_other opts _ hne]
      cases ho : (Opt.valued k long v).port? with
      | none =>
        rw [lastPort_append_other opts _ ho, ← linuxccc_foldl_port env',
          Option.getD_none, ih]
        simp
      | some w =>
        rw [lastPort_append_port opts _ ho]
        simp

/-! ## The scripts -/

/-- The loops end with the variables that the options assign, and with no others. -/
theorem agree_iff_same (arg0 arg0' arg1 : Text) {opts : List Opt}
    (hopts : ∀ o ∈ opts, linuxccc.Has o) :
    Agree env env' arg0 arg0' arg1 opts ↔
      Same (opts.foldl (runccc.apply env) (runccc.start env arg0 arg1))
        (opts.foldl (linuxccc.apply env') (linuxccc.start env' arg0' arg1)) := by
  have hends := ends_nil env (runccc.start env arg0 arg1) (runccc_has opts)
  have hends' := ends_nil env' (linuxccc.start env' arg0' arg1) hopts
  constructor
  · intro h
    rcases h with ⟨st, st', hst, hst', hsame⟩
    rw [(Prod.mk.inj (Ends.unique hst hends)).1, (Prod.mk.inj (Ends.unique hst' hends')).1] at hsame
    exact hsame
  · intro hsame
    exact ⟨_, _, hends, hends', hsame⟩

/-- Both set TLS or both do not, exactly if the TLS name comes with `-t`. -/
theorem tls_iff (hmode : arg0 = runccc.tlsName ↔ arg0' = linuxccc.tlsName) :
    ((opts.foldl (runccc.apply env) (runccc.start env arg0 arg1)).tls ≠ [] ↔
        (opts.foldl (linuxccc.apply env') (linuxccc.start env' arg0' arg1)).tls ≠ []) ↔
      (arg0 = runccc.tlsName → ∃ long, .tls long ∈ opts) := by
  have htls := foldl_tls env (runccc.start env arg0 arg1) opts (s := runccc)
    fun _ => (by decide : "-tls --runlevel0".toList ≠ [])
  have htls' := foldl_tls env' (linuxccc.start env' arg0' arg1) opts (s := linuxccc)
    fun _ => (by decide : "-tls".toList ≠ [])
  rw [runccc_start_tls] at htls
  rw [linuxccc_start_tls, ← hmode] at htls'
  rw [htls, htls']
  constructor
  · intro h hname
    rcases h.mpr (Or.inl hname) with hnil | hmem
    · exact absurd rfl hnil
    · exact hmem
  · intro hname
    constructor
    · intro h
      rcases h with hnil | hmem
      · exact absurd rfl hnil
      · exact Or.inr hmem
    · intro h
      rcases h with hname' | hmem
      · exact Or.inr (hname hname')
      · exact Or.inr hmem

/-- The scripts agree exactly if the TLS name comes with `-t`, and no `-t` changes
the port. -/
theorem agree_iff (env env' : Env) {arg0 arg0' : Text}
    (hmode : arg0 = runccc.tlsName ↔ arg0' = linuxccc.tlsName) (arg1 : Text) {opts : List Opt}
    (hopts : ∀ o ∈ opts, linuxccc.Has o) :
    Agree env env' arg0 arg0' arg1 opts ↔
      (arg0 = runccc.tlsName → ∃ long, .tls long ∈ opts) ∧
        PortHeld (firstPort (arg0 = runccc.tlsName)) opts := by
  rcases start_shared env env' arg0 arg0' arg1 hmode with ⟨hport, hshared⟩
  have hportiff := foldl_port_iff env env' _ _ opts hport
  rw [← hport, runccc_start_port] at hportiff
  have htlsiff := tls_iff env env' arg0 arg0' arg1 opts hmode
  have hfoldl := foldl_shared env env' _ _ opts hshared
  rw [agree_iff_same env env' arg0 arg0' arg1 hopts]
  constructor
  · intro hsame
    exact ⟨htlsiff.mp hsame.tls, hportiff.mp hsame.port⟩
  · intro h
    exact ⟨hportiff.mpr h.2, hfoldl.1, hfoldl.2, htlsiff.mpr h.1⟩

/-- A port behind `-t`. -/
theorem agree_port :
    Agree plainEnv plainEnv "./runccc".toList "./linuxccc".toList "7".toList
      [.tls false, .valued .port true "8443".toList] := by
  apply (agree_iff plainEnv plainEnv (by decide) _ (by decide)).mpr
  refine ⟨by decide, (portHeld_other [.tls false] _ ?_).mpr (Or.inl rfl)⟩
  intro long heq
  cases heq

/-- With `-t` alone, `runccc` connects to port 443 and `linuxccc` to port 80. -/
theorem not_agree_tls :
    ¬ Agree plainEnv plainEnv "./runccc".toList "./linuxccc".toList "7".toList [.tls false] := by
  intro h
  rcases h with ⟨st, st', hst, hst', hsame⟩
  have hport := hsame.port
  rw [(Prod.mk.inj (Ends.unique hst (ends_nil plainEnv _ (runccc_has _)))).1,
    (Prod.mk.inj (Ends.unique hst' (ends_nil plainEnv _ (by decide)))).1] at hport
  exact absurd hport (by decide)

end PtsTools.Config
