import ProxyServer.Lib.Run

namespace ProxyServer.Lib

variable {σ ι : Type*} (step : σ → ι → Option σ)

theorem run_history {invariant : List ι → σ → Prop} {c : σ → ι → Prop} {s t : σ} {as : List ι}
    (keep : ∀ past s a t, invariant past s → c s a → step s a = some t → invariant (past ++ [a]) t)
    (init : invariant [] s) (all : EveryStep step s as c) (reached : run step s as = some t) :
    invariant as t := by
  have traced : ∀ past, past <+: as → ∀ u, run step s past = some u → invariant past u := by
    intro past
    induction past using List.reverseRecOn with
    | nil =>
        intro _ u start
        cases start
        exact init
    | append_singleton past a ih =>
        intro isPrefix u here
        have before : past <+: as := (List.prefix_append past [a]).trans isPrefix
        rw [run_append] at here
        obtain ⟨v, first, last⟩ := Option.bind_eq_some_iff.mp here
        obtain ⟨w, taken, same⟩ := Option.bind_eq_some_iff.mp last
        cases same
        exact keep past v a u (ih before v first) (all past a isPrefix v first) taken
  exact traced as List.prefix_rfl t reached

theorem everyStep_true (s : σ) (as : List ι) : EveryStep step s as fun _ _ => True :=
  fun _ _ _ _ _ => trivial

end ProxyServer.Lib
