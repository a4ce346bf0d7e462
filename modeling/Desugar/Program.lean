import Desugar.Pass
import Desugar.Settings.Basic

/-!
# Desugaring a program

The passes run in a fixed order: list blocks, prefix calls to each registered name,
symbol paths. The guard then reads the text they leave, and only if it finds no
assignment to a registered name are decimals completed. Empty names are registered
for nothing.
-/

namespace Desugar

namespace Settings

/-- The passes that run before the guard. -/
def passesBeforeGuard (settings : Settings) (names : List Text) : List Pass :=
  (if settings.listBlocks then [.listBlocks settings.keywords] else []) ++
    (if settings.callSpacing then names.map .callSpacing else []) ++
      (if settings.symbolPaths then [.symbolPaths settings.pathConstructor] else [])

/-- The passes that run after the guard. -/
def passesAfterGuard (settings : Settings) : List Pass :=
  if settings.decimals then [.trailingDots, .leadingDots] else []

end Settings

/-- The registered names that count: those that are not empty. -/
def properNames (registry : List Text) : List Text :=
  registry.filter fun name => !name.isEmpty

/-- The text that the guard reads. -/
def guardedText (settings : Settings) (registry : List Text) (source : Text) : Text :=
  Pass.runAll (settings.passesBeforeGuard (properNames registry)) source

/-- What the guard finds in the text that it reads. -/
def collision? (settings : Settings) (registry : List Text) (source : Text) :
    Option Collision :=
  if settings.nameGuard then
    Assignment.firstCollision? (guardedText settings registry source) (properNames registry)
  else none

/-- Desugar a program for the given settings and registered names, unless it assigns to
one of them. -/
def desugar (settings : Settings) (registry : List Text) (source : Text) :
    Except Collision Text :=
  match collision? settings registry source with
  | some collision => .error collision
  | none => .ok (Pass.runAll settings.passesAfterGuard (guardedText settings registry source))

/-- What a run of `desugar` reports. -/
def traceEvents (settings : Settings) (registry : List Text) (source : Text) : List Event :=
  .opened (Text.byteLength source) registry.length ::
    Pass.allEvents (settings.passesBeforeGuard (properNames registry)) source ++
      match collision? settings registry source with
      | some collision => [.collided collision]
      | none =>
          Pass.allEvents settings.passesAfterGuard (guardedText settings registry source)

end Desugar
