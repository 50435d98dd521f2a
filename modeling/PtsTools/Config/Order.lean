import Mathlib.Data.List.Nodup
import PtsTools.Config.Options

/-!
# The order of the options of `runccc`

Two options of different kinds assign different variables, so their order does not
matter: `apply_comm`.  There is one exception.  In `runccc` the option `-t` assigns
`Port` as well, so it matters which of `-p` and `-t` comes last, unless the port is
443 anyway: `orderFree_iff`.
-/

namespace PtsTools.Config

open PtsTools.Lib.While

/-- The kind of an option: its key, or none for `-t`. -/
def Opt.kind : Opt → Option Key
  | .valued k _ _ => some k
  | .tls _ => none

/-- The order of the options does not matter: in every order the script ends with the
same variables and the same command, and a port that is given is the one that is
used. -/
def Script.OrderFree (s : Script) (env : Env) (arg0 arg1 : Text) (opts : List Opt) : Prop :=
  ∃ st, ∀ opts' : List Opt, opts'.Perm opts →
    (s.loop env).Ends (s.start env arg0 arg1, opts'.flatMap Opt.words) (st, []) ∧
    (∃ fuel, s.exec env fuel arg0 (arg1 :: opts'.flatMap Opt.words) = some (s.finish env st)) ∧
    ∀ long v, .valued .port long v ∈ opts' → st.port = v

/-- The options with `-t` and another port than 443. -/
def PortClash (opts : List Opt) : Prop :=
  (∃ long, .tls long ∈ opts) ∧ ∃ long v, .valued .port long v ∈ opts ∧ v ≠ "443".toList

/-! ## Options that commute -/

/-- Options with different keys commute. -/
theorem assign_comm (env : Env) (st : Settings) {k k' : Key} (hk : k ≠ k') (v v' : Text) :
    k'.assign env v' (k.assign env v st) = k.assign env v (k'.assign env v' st) := by
  cases k <;> cases k' <;> first | rfl | exact absurd rfl hk

/-- An option commutes with `-t` unless it is another port than 443. -/
theorem assign_tls_comm (env : Env) (st : Settings) {k : Key} {v : Text}
    (hk : k = .port → v = "443".toList) :
    runccc.tls (k.assign env v st) = k.assign env v (runccc.tls st) := by
  cases k with
  | port =>
    rw [hk rfl]
    rfl
  | password => rfl
  | folder => rfl
  | exedir => rfl

/-- Without a clash, options of different kinds commute. -/
theorem apply_comm (env : Env) {opts : List Opt} (hclash : ¬ PortClash opts) {o o' : Opt}
    (ho : o ∈ opts) (ho' : o' ∈ opts) (hkind : o.kind ≠ o'.kind) (st : Settings) :
    runccc.apply env (runccc.apply env st o) o' = runccc.apply env (runccc.apply env st o') o := by
  have hport : ∀ {k long v long'}, .valued k long v ∈ opts → .tls long' ∈ opts →
      k = .port → v = "443".toList := by
    intro k long v long' hvalued htls hk
    by_contra hv
    rw [hk] at hvalued
    exact hclash ⟨⟨long', htls⟩, long, v, hvalued, hv⟩
  cases o with
  | valued k long v =>
    cases o' with
    | valued k' long' v' =>
      exact assign_comm env st (fun heq => hkind (congrArg some heq)) v v'
    | tls long' => exact assign_tls_comm env st (hport ho ho')
  | tls long =>
    cases o' with
    | valued k' long' v' => exact (assign_tls_comm env st (hport ho' ho)).symm
    | tls long' => exact absurd rfl hkind

/-- Without a clash, the options assign the same in every order. -/
theorem foldl_perm (env : Env) {opts opts' : List Opt} (hdistinct : (opts.map Opt.kind).Nodup)
    (hclash : ¬ PortClash opts) (hperm : opts'.Perm opts) (st : Settings) :
    opts'.foldl (runccc.apply env) st = opts.foldl (runccc.apply env) st := by
  symm
  apply hperm.symm.foldl_eq'
  intro o ho o' ho' st
  by_cases hkind : o.kind = o'.kind
  · rw [List.inj_on_of_nodup_map hdistinct ho ho' hkind]
  · exact apply_comm env hclash ho ho' hkind st

/-! ## The last option -/

/-- Any option can come last. -/
theorem perm_last {opts : List Opt} {o : Opt} (ho : o ∈ opts) :
    (opts.erase o ++ [o]).Perm opts :=
  (List.perm_append_singleton o (opts.erase o)).trans (List.perm_cons_erase ho).symm

/-- An option that comes last is assigned last. -/
theorem foldl_last (env : Env) (opts : List Opt) (o : Opt) (st : Settings) :
    (opts.erase o ++ [o]).foldl (runccc.apply env) st =
      runccc.apply env ((opts.erase o).foldl (runccc.apply env) st) o := by
  rw [List.foldl_append]
  rfl

/-! ## The order -/

/-- Where the loop ends, the script ends with what follows. -/
theorem exec_of_ends {s : Script} {env : Env} {arg0 arg1 : Text} {options : List Text}
    {st : Settings} (h : (s.loop env).Ends (s.start env arg0 arg1, options) (st, [])) :
    ∃ fuel, s.exec env fuel arg0 (arg1 :: options) = some (s.finish env st) := by
  rcases h with ⟨fuel, hfuel⟩
  refine ⟨fuel, ?_⟩
  rw [Script.exec, hfuel]
  rfl

/-- The order of options of different kinds does not matter exactly if there is no
clash of `-t` and a port. -/
theorem orderFree_iff (env : Env) (arg0 arg1 : Text) {opts : List Opt}
    (hdistinct : (opts.map Opt.kind).Nodup) :
    runccc.OrderFree env arg0 arg1 opts ↔ ¬ PortClash opts := by
  constructor
  · intro h hclash
    rcases h with ⟨st, h⟩
    rcases hclash with ⟨⟨long, htls⟩, long', v, hport, hv⟩
    -- with `-t` at the end the port is 443
    rcases h _ (perm_last htls) with ⟨hends, -, hgiven⟩
    have hst := Ends.unique hends (ends_nil env (runccc.start env arg0 arg1) (runccc_has _))
    rw [foldl_last] at hst
    have hlast : st.port = "443".toList := by
      rw [(Prod.mk.inj hst).1]
      rfl
    have hmem := (perm_last htls).mem_iff.mpr hport
    exact hv ((hgiven long' v hmem).symm.trans hlast)
  · intro hclash
    refine ⟨opts.foldl (runccc.apply env) (runccc.start env arg0 arg1), ?_⟩
    intro opts' hperm
    have hends := ends_nil env (runccc.start env arg0 arg1) (runccc_has opts')
    rw [foldl_perm env hdistinct hclash hperm] at hends
    refine ⟨hends, exec_of_ends hends, ?_⟩
    intro long v hport
    -- the port comes last in another order, which ends with the same variables
    have hlast := foldl_perm env hdistinct hclash (perm_last (hperm.mem_iff.mp hport))
      (runccc.start env arg0 arg1)
    rw [foldl_last] at hlast
    rw [← hlast]
    rfl

/-- A port and a password. -/
theorem orderFree_password :
    runccc.OrderFree plainEnv "./runccc".toList "7".toList
      [.valued .port false "8080".toList, .valued .password true "pw".toList] :=
  (orderFree_iff plainEnv _ _ (by decide)).mpr (by simp [PortClash])

/-- A port and `-t` use the port in one order only. -/
theorem not_orderFree_tls :
    runccc.exec plainEnv 5 "./runccc".toList ["7".toList, "-t".toList, "-p".toList, "8080".toList] ≠
        runccc.exec plainEnv 5 "./runccc".toList
          ["7".toList, "-p".toList, "8080".toList, "-t".toList] ∧
      ¬ runccc.OrderFree plainEnv "./runccc".toList "7".toList
        [.valued .port false "8080".toList, .tls false] := by
  refine ⟨by decide, ?_⟩
  intro h
  rcases h with ⟨st, h⟩
  have hfirst := Ends.unique (h _ (List.Perm.refl _)).1 (ends_nil plainEnv _ (runccc_has _))
  have hgiven := (h _ (List.Perm.refl _)).2.2 false "8080".toList List.mem_cons_self
  rw [(Prod.mk.inj hfirst).1] at hgiven
  exact absurd hgiven (by decide)

end PtsTools.Config
