/-
# The order of a table does not matter

Tables with the same routes in different orders are built or refused together, and their routers
answer alike: they have the same methods, and every look-up finds the same route with the same
parameters.  The trees may be cut in different places and the refusals may name different routes;
none of this reaches a match.

The final-slash hint is left out.  Where a catch-all comes after text that is already in the tree,
it stands behind an empty node, and a path that ends before its slash is not given the hint.
-/

import RadixRouter.Proofs.LookupHistory
import RadixRouter.Proofs.RefusedRegistration
import RadixRouter.Proofs.TableRoutes

namespace RadixRouter

variable {α γ : Type}

namespace Router

variable {first second : Router α γ} {log log' : List (Registration α)}

/-- Routers with the same registrations have the same methods. -/
theorem Keeps.methods_of_perm (keeps : first.Keeps log) (keeps' : second.Keeps log')
    (same : log.Perm log') : first.methods = second.methods := by
  have sorted : first.methods.Pairwise (· < ·) := keeps.registers.ordered
  have sorted' : second.methods.Pairwise (· < ·) := keeps'.registers.ordered
  have hperm : first.methods.Perm second.methods := by
    refine (List.perm_ext_iff_of_nodup (sorted.imp ne_of_lt) (sorted'.imp ne_of_lt)).mpr ?_
    intro method
    rw [methods, methods, keeps.registers.mem_keys_iff, keeps'.registers.mem_keys_iff]
    simp only [same.mem_iff]
  exact hperm.eq_of_pairwise (fun _ _ _ _ hlt hgt => absurd hgt (lt_asymm hlt)) sorted sorted'

/-- Routers with the same registrations find the same. -/
theorem Keeps.lookup_of_perm (keeps : first.Keeps log) (keeps' : second.Keeps log')
    (same : log.Perm log') (method path : String) :
    (first.lookup method path).answer.handler = (second.lookup method path).answer.handler ∧
      (first.lookup method path).answer.params = (second.lookup method path).answer.params := by
  have hresult : (walk first.trees method path).result? =
      (walk second.trees method path).result? := by
    apply Option.ext
    rintro ⟨handler, captures⟩
    rw [keeps.registers.walk_result, keeps'.registers.walk_result]
    simp only [same.mem_iff]
  obtain ⟨hhandler, -, hparams⟩ := lookup_fields keeps.coherent method path
  obtain ⟨hhandler', -, hparams'⟩ := lookup_fields keeps'.coherent method path
  obtain ⟨hsame, hsame'⟩ := answer_of_result? hresult
  exact ⟨hhandler.trans (hsame.trans hhandler'.symm), hparams.trans (hsame'.trans hparams'.symm)⟩

end Router

namespace RouteTable

/-- Tables with the same routes in any order are built or refused together.  The routers built
have the same methods, and whatever has been looked up in either before, a look-up finds the same
route and the same parameters in both. -/
theorem build_perm (isMethod : String → Bool) (config : RouterConfig)
    {routes routes' : List RouteSpec} (same : routes.Perm routes') :
    let built := (build isMethod ⟨config, routes⟩).1
    let built' := (build isMethod ⟨config, routes'⟩).1
    built.isOk = built'.isOk ∧
      ∀ router router', built = .ok router → built' = .ok router' →
        router.methods = router'.methods ∧
          ∀ (before before' : List (String × String)) (method path : String),
            let answer := ((router.lookUpAll before).state.lookup method path).answer
            let answer' := ((router'.lookUpAll before').state.lookup method path).answer
            answer.handler = answer'.handler ∧ answer.params = answer'.params := by
  intro built built'
  refine ⟨?_, fun router router' hrouter hrouter' => ?_⟩
  · rw [Bool.eq_iff_iff, isOk_build_iff, isOk_build_iff]
    exact harmonious_perm same
  · have keeps := keeps_build hrouter
    have keeps' := keeps_build hrouter'
    have registrations := same.map RouteSpec.registration
    refine ⟨keeps.methods_of_perm keeps' registrations, fun before before' method path => ?_⟩
    exact (keeps.of_undisturbed (Router.quiet_lookUpAll router before).undisturbed).lookup_of_perm
      (keeps'.of_undisturbed (Router.quiet_lookUpAll router' before').undisturbed) registrations
      method path

/-- Routes whose trees differ with the order: in one, the catch-all is put behind an empty node. -/
def assets : List RouteSpec :=
  [⟨"GET", "/assets/*file", some "asset"⟩, ⟨"GET", "/assetsx", none⟩, ⟨"PUT", "/:name", none⟩]

/-- The assets are built in either order, and then found alike. -/
theorem build_perm_assets :
    let isMethod (method : String) : Bool := ["GET", "PUT"].contains method
    assets.Perm assets.reverse ∧
      ∃ router router', (build isMethod ⟨{}, assets⟩).1 = .ok router ∧
        (build isMethod ⟨{}, assets.reverse⟩).1 = .ok router' ∧
          router.methods = ["GET", "PUT"] ∧ router'.methods = ["GET", "PUT"] ∧
            (router.lookup "GET" "/assets/a.css").answer.handler = assets.head? ∧
            (router'.lookup "GET" "/assets/a.css").answer.handler = assets.head? := by
  intro isMethod
  have same : assets.Perm assets.reverse := (List.reverse_perm _).symm
  have hanswer : ((build isMethod ⟨{}, assets⟩).1.toOption.map fun router =>
      (router.methods, (router.lookup "GET" "/assets/a.css").answer.handler)) =
        some (["GET", "PUT"], assets.head?) := by
    decide +kernel
  obtain ⟨hok, hrouters⟩ := build_perm isMethod {} same
  cases hbuilt : (build isMethod ⟨{}, assets⟩).1 with
  | error error =>
      rw [hbuilt] at hanswer
      cases hanswer
  | ok router =>
      cases hbuilt' : (build isMethod ⟨{}, assets.reverse⟩).1 with
      | error error =>
          rw [hbuilt, hbuilt'] at hok
          cases hok
      | ok router' =>
          rw [hbuilt] at hanswer
          obtain ⟨hmethods, hhandler⟩ := Prod.mk.inj (Option.some.inj hanswer)
          obtain ⟨samePerm, hlookups⟩ := hrouters router router' hbuilt hbuilt'
          refine ⟨same, router, router', rfl, rfl, hmethods, samePerm ▸ hmethods, hhandler, ?_⟩
          exact (hlookups [] [] "GET" "/assets/a.css").1.symm.trans hhandler

end RouteTable

end RadixRouter
