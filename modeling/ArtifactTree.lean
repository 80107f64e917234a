import ArtifactTree.Graph.Lemmas
import ArtifactTree.Main
import ArtifactTree.Proofs.Execution
import ArtifactTree.Proofs.Consistency
import ArtifactTree.Proofs.Lockstep
import ArtifactTree.Proofs.Layout
import ArtifactTree.Proofs.Unfolding
import ArtifactTree.Proofs.Termination
import ArtifactTree.Proofs.Calls
import ArtifactTree.Proofs.Caching
import ArtifactTree.Proofs.Frame
import ArtifactTree.Proofs.Mediation.Progress
import ArtifactTree.Proofs.Mediation.Outcome
import ArtifactTree.Proofs.Mediation.Winners
import ArtifactTree.Proofs.Mediation.Reference
import ArtifactTree.Proofs.Mediation.Agreement
import ArtifactTree.Proofs.Chains
import ArtifactTree.Proofs.Mediation.Markers
import ArtifactTree.Proofs.Mediation.OwnArtifact
import ArtifactTree.Proofs.Manifest
import ArtifactTree.Proofs.Management
import ArtifactTree.Proofs.Rendering.Labels
import ArtifactTree.Proofs.Rendering.Walk
import ArtifactTree.Proofs.Rendering.Shown
import ArtifactTree.Proofs.Rendering.Outline
import ArtifactTree.Proofs.Rendering.Dot
import ArtifactTree.Proofs.Rendering.Tables
import ArtifactTree.Proofs.Rendering.Graphml
import ArtifactTree.Proofs.Rendering.Json
import ArtifactTree.Proofs.Rendering.Records
import ArtifactTree.Proofs.Rendering.Formats
import ArtifactTree.Proofs.Arena
import ArtifactTree.Proofs.Listing
import ArtifactTree.Proofs.Reporting
import ArtifactTree.Proofs.Files
import ArtifactTree.Proofs.Runs
import ArtifactTree.Proofs.Descriptors
import ArtifactTree.Proofs.Conversion
import ArtifactTree.Proofs.Preservation
import ArtifactTree.Proofs.Growth
import ArtifactTree.Proofs.Mediation.Exploration
import ArtifactTree.Proofs.Pruning
import ArtifactTree.Proofs.Mediation.Repetition
import ArtifactTree.Proofs.Mediation.Locality
import ArtifactTree.Proofs.Independence
import ArtifactTree.Proofs.Rendering.Tour
import ArtifactTree.Proofs.Rendering.Drawn
import ArtifactTree.Proofs.Rendering.Columns
import ArtifactTree.Proofs.Rendering.Identity
import ArtifactTree.Proofs.Rendering.Nesting
import ArtifactTree.Proofs.Rendering.Document
import ArtifactTree.Proofs.Leniency
import ArtifactTree.Proofs.Exclusions
import ArtifactTree.Proofs.Rendering.Entities
import ArtifactTree.Proofs.Rendering.Legibility
import ArtifactTree.Proofs.Mediation.Collisions
import ArtifactTree.Proofs.Validity
import ArtifactTree.Proofs.Patterns
import ArtifactTree.Proofs.Grammar
import ArtifactTree.Proofs.Toml.Readers
import ArtifactTree.Proofs.Toml.Arrays
import ArtifactTree.Proofs.Volume
