import MissionText.Main
import MissionText.Editor
import MissionText.Proofs.Draft.Problems
import MissionText.Proofs.Draft.Exchange
import MissionText.Proofs.Mission.RoundTrip
import MissionText.Proofs.Mission.PoolForm
import MissionText.Proofs.Mission.WrittenOut
import MissionText.Proofs.Mission.Spacing
import MissionText.Proofs.Completion.Cycling
import MissionText.Proofs.Completion.Picking
import MissionText.Proofs.Completion.Rest
import MissionText.Proofs.Draft.Tally
import MissionText.Proofs.Completion.Local
import MissionText.Proofs.Token.Claimed
import MissionText.Proofs.Checked.Total
import MissionText.Proofs.Completion.Cursor
import MissionText.Proofs.Completion.Number
import MissionText.Proofs.Text.Bytes
import MissionText.Proofs.Completion.Listed
import MissionText.Proofs.Completion.Highlighted
import MissionText.Proofs.Pool.Hovered
import MissionText.Proofs.Completion.Referenced
import MissionText.Proofs.Completion.Comma
import MissionText.Proofs.Mission.Respelling
import MissionText.Proofs.Editor.Typing
import MissionText.Proofs.Host.Profiles
import MissionText.Proofs.Word.Range
import MissionText.Proofs.Catalog.Store
import MissionText.Proofs.Mission.Filling
