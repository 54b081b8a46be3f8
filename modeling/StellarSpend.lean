import StellarSpend.Host
import StellarSpend.Run
import StellarSpend.Token
import StellarSpend.Events
import StellarSpend.Staking
import StellarSpend.Recurring.Contract
import StellarSpend.Recurring.CatchUp
import StellarSpend.Recurring.Registry
import StellarSpend.Recurring.Pacing
import StellarSpend.Recurring.Independence
import StellarSpend.Recurring.Schedule
import StellarSpend.Escrow.Contract
import StellarSpend.Escrow.Ledger
import StellarSpend.Escrow.Slots
import StellarSpend.BatchRewards.Contract
import StellarSpend.BatchRewards.Loop
import StellarSpend.BatchRewards.Preview
import StellarSpend.BatchRewards.Recipients
import StellarSpend.BatchRewards.Compose
import StellarSpend.BatchRewards.Runs
import StellarSpend.BatchRewards.Independence
import StellarSpend.Notifications
