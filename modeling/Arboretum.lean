import Arboretum.Garden.Reading
import Arboretum.Garden.Writing
import Arboretum.Plant.Guarded
import Arboretum.Plant.Nursery
import Arboretum.Proofs.Branch.Arena
import Arboretum.Proofs.Branch.Grafting
import Arboretum.Proofs.Branch.Nearest
import Arboretum.Proofs.Branch.Posing
import Arboretum.Proofs.Branch.Pruning
import Arboretum.Proofs.Branch.Resting
import Arboretum.Proofs.Branch.Swaying
import Arboretum.Proofs.Conversion
import Arboretum.Proofs.Garden.Keeping
import Arboretum.Proofs.Garden.Rearranging
import Arboretum.Proofs.Garden.RuleTexts
import Arboretum.Proofs.Garden.Usable
import Arboretum.Proofs.Geometry.Interpolation
import Arboretum.Proofs.Geometry.Normal
import Arboretum.Proofs.Geometry.Rotations
import Arboretum.Proofs.Json.Numerals
import Arboretum.Proofs.Json.Order
import Arboretum.Proofs.Json.Recovery
import Arboretum.Proofs.Json.Texts
import Arboretum.Proofs.LSystem.Acceptance
import Arboretum.Proofs.LSystem.Filing
import Arboretum.Proofs.LSystem.Generations
import Arboretum.Proofs.LSystem.Intervals
import Arboretum.Proofs.LSystem.Preference
import Arboretum.Proofs.LSystem.Shares
import Arboretum.Proofs.LSystem.Tables
import Arboretum.Proofs.Number.Arithmetic
import Arboretum.Proofs.Number.Bits
import Arboretum.Proofs.Number.Errors
import Arboretum.Proofs.Number.Exact
import Arboretum.Proofs.Number.Nearest
import Arboretum.Proofs.Number.NotANumber
import Arboretum.Proofs.Number.Operations
import Arboretum.Proofs.Number.Order
import Arboretum.Proofs.Number.Packed
import Arboretum.Proofs.Number.Reals
import Arboretum.Proofs.Number.Sign
import Arboretum.Proofs.Number.Sinusoids
import Arboretum.Proofs.Number.TotalOrder
import Arboretum.Proofs.Number.Widths
import Arboretum.Proofs.Plant.Adorning
import Arboretum.Proofs.Plant.Calm
import Arboretum.Proofs.Plant.Completion
import Arboretum.Proofs.Plant.Flowers
import Arboretum.Proofs.Plant.Guards
import Arboretum.Proofs.Plant.Lots
import Arboretum.Proofs.Plant.Seeds
import Arboretum.Proofs.Plant.Weather
import Arboretum.Proofs.Random.Refusals
import Arboretum.Proofs.Scene.Above
import Arboretum.Proofs.Scene.Apart
import Arboretum.Proofs.Scene.Following
import Arboretum.Proofs.Scene.Mirroring
import Arboretum.Proofs.Scene.Plots
import Arboretum.Proofs.Scene.Staging
import Arboretum.Proofs.Scene.Story
import Arboretum.Proofs.Sway.Amplitude
import Arboretum.Proofs.Sway.Bending
import Arboretum.Proofs.Sway.Gains
import Arboretum.Proofs.Turtle.Brackets
import Arboretum.Proofs.Turtle.Capping
import Arboretum.Proofs.Turtle.Descent
import Arboretum.Proofs.Turtle.Groups
import Arboretum.Proofs.Turtle.Growth
import Arboretum.Proofs.Turtle.Lengths
import Arboretum.Proofs.Turtle.Mending
import Arboretum.Proofs.Turtle.Nesting
import Arboretum.Proofs.Turtle.Steps
import Arboretum.Proofs.Turtle.Trunk
import Arboretum.Scene.Basic
import Arboretum.Scene.World
